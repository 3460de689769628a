import Transclusion.Proofs.Layout

/-! What a successful rewrite has done. Every block with a directive was filled with what
its request was answered, every other block was left alone, and the edits are those of the
filled blocks in document order, whatever state the source went through. -/
namespace Transclusion.Document
variable {σ : Type} {options : Options} {answers : Request → Text → Prop}

/-- What a block is filled with: a block without a directive with nothing, any other with
the lines its directive selects from an answer to its request. -/
def Answered (options : Options) (answers : Request → Text → Prop) (block : FencedBlock) :
    Option Text → Prop
  | none => directiveToken? options block = none
  | some content => ∃ token directive source, directiveToken? options block = some token ∧
      Directive.parse token options.rootDir options.prefixes = .ok directive ∧
      answers ⟨directive.kind, directive.locator⟩ source ∧
      content = Snippet.extract source directive.range options.keepFinalNewline options.unindent

/-- What a block is filled with depends on its info string alone. -/
theorem Answered.congr {block other : FencedBlock} {content : Option Text}
    (answered : Answered options answers block content) (same : other.info = block.info) :
    Answered options answers other content := by
  have sameToken : directiveToken? options other = directiveToken? options block := by
    simp only [directiveToken?, FencedBlock.meta?, same]
  cases content with
  | none => exact sameToken.trans answered
  | some content =>
    obtain ⟨token, directive, source, found, parsed, answer, cut⟩ := answered
    exact ⟨token, directive, source, sameToken.trans found, parsed, answer, cut⟩

theorem Answered.imp {others : Request → Text → Prop} {block : FencedBlock} {content : Option Text}
    (answered : Answered options answers block content)
    (given : ∀ request found, answers request found → others request found) :
    Answered options others block content := by
  cases content with
  | none => exact answered
  | some content =>
    obtain ⟨token, directive, source, found, parsed, answer, cut⟩ := answered
    exact ⟨token, directive, source, found, parsed, given _ _ answer, cut⟩

theorem Answered.isSome {block : FencedBlock} {content : Option Text}
    (answered : Answered options answers block content) :
    content.isSome = (directiveToken? options block).isSome := by
  cases content with
  | none =>
    rw [show directiveToken? options block = none from answered]
  | some content =>
    obtain ⟨token, directive, source, found, -⟩ := answered
    rw [found]
    rfl

/-- Edits that were made of answers are those of filled blocks. -/
theorem exists_contents (answers : Request → Text → Prop) {blocks : List FencedBlock}
    {waiting : List PendingBlock} {fetched : List (PendingBlock × Except FetchError Text)} {edits : List Edit}
    (isPending : pending options blocks = .ok waiting) (asked : fetched.map Prod.fst = waiting)
    (filled : fillAll options fetched = .ok edits)
    (answered : ∀ pending source, (pending, .ok source) ∈ fetched →
      answers pending.request source) :
    ∃ contents, List.Forall₂ (Answered options answers) blocks contents ∧
      edits = ofFilled FencedBlock.edits blocks contents := by
  induction blocks generalizing waiting fetched edits with
  | nil =>
    cases isPending
    rw [List.map_eq_nil_iff.mp asked] at filled
    cases filled
    exact ⟨[], .nil, rfl⟩
  | cons block blocks ih =>
    unfold pending at isPending
    split at isPending
    · next noDirective =>
      obtain ⟨contents, each, rfl⟩ := ih isPending asked filled answered
      exact ⟨none :: contents, .cons noDirective each, rfl⟩
    · next token found =>
      split at isPending
      · cases isPending
      · next directive parsed =>
        cases rest : pending options blocks with
        | error e =>
          rw [rest] at isPending
          cases isPending
        | ok more =>
          rw [rest] at isPending
          cases isPending
          obtain ⟨first, others, rfl, firstBlock, othersAsked⟩ := List.map_eq_cons_iff.mp asked
          obtain ⟨own, answer⟩ := first
          obtain rfl : own = ⟨block, directive⟩ := firstBlock
          cases answer with
          | error cause => cases filled
          | ok source =>
            cases later : fillAll options others with
            | error e =>
              rw [fillAll, later] at filled
              cases filled
            | ok laterEdits =>
              rw [fillAll, later] at filled
              cases filled
              obtain ⟨contents, each, rfl⟩ := ih rest othersAsked later
                fun pending source member => answered pending source (by simp [member])
              refine ⟨some _ :: contents, .cons ⟨token, directive, source, found, parsed,
                answered ⟨block, directive⟩ source (by simp), rfl⟩ each, rfl⟩

/-- Every block that waits is asked for once, in order. -/
theorem map_fst_fetchAll (source : Source (StateM σ)) (waiting : List PendingBlock) (state : σ) :
    ((fetchAll source waiting state).1.map Prod.fst) = waiting := by
  induction waiting generalizing state with
  | nil => rfl
  | cons pending waiting ih =>
    exact congrArg (pending :: ·) (ih _)

theorem exists_asked {source : Source (StateM σ)} {waiting : List PendingBlock} {state : σ}
    {pending : PendingBlock} {answer : Except FetchError Text}
    (member : (pending, answer) ∈ (fetchAll source waiting state).1) :
    ∃ asked, (source pending.request asked).1 = answer := by
  induction waiting generalizing state with
  | nil => cases member
  | cons first waiting ih =>
    rcases List.mem_cons.mp member with same | later
    · cases same
      exact ⟨state, rfl⟩
    · exact ih later

/-- Without a malformed directive the answers to the blocks that wait decide. -/
theorem rewriteAt_of_ok {source : Source (StateM σ)} {ranges : List Span} {text : Text}
    {waiting : List PendingBlock} {state : σ}
    (isPending : pending options (blocksAt ranges text) = .ok waiting) :
    (rewriteAt source options ranges text state).1 =
      (fillAll options (fetchAll source waiting state).1).map (Edit.applyAll · text) := by
  unfold rewriteAt
  rw [isPending]
  rfl

/-- A successful rewrite has made the edits of the blocks it filled. -/
theorem exists_filled {source : Source (StateM σ)} {ranges : List Span} {text out : Text}
    {state : σ} (given : ∀ request asked found, (source request asked).1 = .ok found →
      answers request found)
    (rewritten : (rewriteAt source options ranges text state).1 = .ok out) :
    ∃ contents, List.Forall₂ (Answered options answers) (blocksAt ranges text) contents ∧
      out = Edit.applyAll (ofFilled FencedBlock.edits (blocksAt ranges text) contents) text := by
  cases isPending : pending options (blocksAt ranges text) with
  | error e =>
    unfold rewriteAt at rewritten
    rw [isPending] at rewritten
    cases rewritten
  | ok waiting =>
    rw [rewriteAt_of_ok isPending] at rewritten
    cases filled : fillAll options (fetchAll source waiting state).1 with
    | error e =>
      rw [filled] at rewritten
      cases rewritten
    | ok edits =>
      rw [filled] at rewritten
      cases rewritten
      obtain ⟨contents, each, rfl⟩ := exists_contents answers isPending
        (map_fst_fetchAll source waiting state) filled fun pending found member => by
          obtain ⟨asked, answer⟩ := exists_asked member
          exact given _ asked found answer
      exact ⟨contents, each, rfl⟩

/-- The edits a rewrite makes with the answers of a source. -/
def editsAt (source : Source Id) (options : Options) (ranges : List Span) (text : Text) :
    Except RewriteError (List Edit) :=
  match pending options (blocksAt ranges text) with
  | .error e => .error e
  | .ok waiting => fillAll options (fetchAll source waiting)

section Steady
variable {source : Source Id} {ranges : List Span} {text : Text} {edits : List Edit}

theorem rewriteAt_eq (source : Source Id) (options : Options) (ranges : List Span) (text : Text) :
    rewriteAt source options ranges text =
      (editsAt source options ranges text).map (Edit.applyAll · text) := by
  unfold rewriteAt editsAt
  cases pending options (blocksAt ranges text) with
  | error e => rfl
  | ok waiting => rfl

theorem exists_edits {out : Text}
    (rewritten : rewriteAt source options ranges text = Except.ok out) :
    ∃ edits, editsAt source options ranges text = .ok edits ∧ out = Edit.applyAll edits text := by
  rw [rewriteAt_eq] at rewritten
  cases made : editsAt source options ranges text with
  | error e =>
    rw [made] at rewritten
    cases rewritten
  | ok edits =>
    rw [made] at rewritten
    exact ⟨edits, rfl, (Except.ok.inj rewritten).symm⟩

/-- A source that always gives the same answer to a request can be asked in any state. -/
theorem rewriteAt_steady {stateful : Source (StateM σ)}
    (steady : ∀ request state, (stateful request state).1 = source request) (options : Options)
    (ranges : List Span) (text : Text) (state : σ) :
    (rewriteAt stateful options ranges text state).1 = rewriteAt source options ranges text := by
  have answers : ∀ waiting state,
      (fetchAll stateful waiting state).1 = fetchAll source waiting := by
    intro waiting
    induction waiting with
    | nil => exact fun _ => rfl
    | cons pending waiting ih =>
      intro state
      have rest := ih (stateful pending.request state).2
      have first := steady pending.request state
      calc (fetchAll stateful (pending :: waiting) state).1
          = (pending, (stateful pending.request state).1) ::
              (fetchAll stateful waiting (stateful pending.request state).2).1 := rfl
        _ = (pending, source pending.request) :: fetchAll source waiting := by rw [first, rest]
  unfold rewriteAt
  cases pending options (blocksAt ranges text) with
  | error e => rfl
  | ok waiting =>
    exact congrArg (fun fetched => (fillAll options fetched).map (Edit.applyAll · text))
      (answers waiting state)

theorem fetchAll_eq_map (source : Source Id) (waiting : List PendingBlock) :
    fetchAll source waiting = waiting.map fun pending => (pending, source pending.request) := by
  induction waiting with
  | nil => rfl
  | cons pending waiting ih =>
    exact congrArg ((pending, source pending.request) :: ·) ih

/-- Blocks that have their answers wait for them and are filled with them. -/
private theorem exists_waiting {blocks : List FencedBlock} {contents : List (Option Text)}
    (answered : List.Forall₂ (Answered options fun request found => source request = .ok found)
      blocks contents) :
    ∃ waiting, pending options blocks = .ok waiting ∧
      fillAll options (fetchAll source waiting) =
        .ok (ofFilled FencedBlock.edits blocks contents) := by
  induction answered with
  | nil => exact ⟨[], rfl, rfl⟩
  | @cons block content blocks contents own rest ih =>
    obtain ⟨waiting, isPending, filled⟩ := ih
    cases content with
    | none =>
      have noDirective : directiveToken? options block = none := own
      refine ⟨waiting, ?_, filled⟩
      rw [pending, noDirective]
      exact isPending
    | some content =>
      obtain ⟨token, directive, found, isToken, parsed, answer, rfl⟩ := own
      refine ⟨⟨block, directive⟩ :: waiting, ?_, ?_⟩
      · rw [pending, isToken]
        simp only [parsed, isPending, Except.map]
      · rw [fetchAll_eq_map] at filled ⊢
        have asked : source (PendingBlock.request ⟨block, directive⟩) = .ok found := answer
        rw [List.map_cons, asked, fillAll, filled]
        rfl

/-- The edits of a rewrite are those of its blocks, each filled with the answer to a request
that was made. -/
theorem exists_answered (made : editsAt source options ranges text = .ok edits) :
    ∃ waiting contents, pending options (blocksAt ranges text) = .ok waiting ∧
      List.Forall₂ (Answered options fun request found =>
        source request = .ok found ∧ ∃ pending ∈ waiting, pending.request = request)
          (blocksAt ranges text) contents ∧
      edits = ofFilled FencedBlock.edits (blocksAt ranges text) contents := by
  unfold editsAt at made
  cases isPending : pending options (blocksAt ranges text) with
  | error e =>
    rw [isPending] at made
    cases made
  | ok waiting =>
    rw [isPending] at made
    have filled : fillAll options (fetchAll source waiting) = .ok edits := made
    rw [fetchAll_eq_map] at filled
    have asked : (waiting.map fun pending => (pending, source pending.request)).map Prod.fst =
        waiting := by
      rw [List.map_map]
      exact List.map_id waiting
    obtain ⟨contents, answered, rfl⟩ := exists_contents
      (fun request found =>
        source request = .ok found ∧ ∃ pending ∈ waiting, pending.request = request)
      isPending asked filled (by
        intro pending found member
        obtain ⟨own, isWaiting, same⟩ := List.mem_map.mp member
        obtain ⟨rfl, answer⟩ := Prod.mk.inj same
        exact ⟨answer, own, isWaiting, rfl⟩)
    exact ⟨waiting, contents, rfl, answered, rfl⟩

/-- Where every block has its answer, the rewrite makes their edits. -/
theorem editsAt_of_answered {contents : List (Option Text)}
    (answered : List.Forall₂ (Answered options fun request found => source request = .ok found)
      (blocksAt ranges text) contents) :
    editsAt source options ranges text =
      .ok (ofFilled FencedBlock.edits (blocksAt ranges text) contents) := by
  obtain ⟨waiting, isPending, filled⟩ := exists_waiting answered
  unfold editsAt
  rw [isPending]
  exact filled

/-- Two sources answer alike what a document asks for. -/
def Agree (options : Options) (ranges : List Span) (text : Text) (source other : Source Id) :
    Prop :=
  ∀ waiting, pending options (blocksAt ranges text) = .ok waiting →
    ∀ pending ∈ waiting, other pending.request = source pending.request

theorem Agree.rewriteAt_eq {other : Source Id} (agree : Agree options ranges text source other) :
    rewriteAt other options ranges text = rewriteAt source options ranges text := by
  rw [Document.rewriteAt_eq, Document.rewriteAt_eq]
  unfold editsAt
  cases isPending : pending options (blocksAt ranges text) with
  | error e => rfl
  | ok waiting =>
    have asked : fetchAll other waiting = fetchAll source waiting := by
      rw [fetchAll_eq_map, fetchAll_eq_map]
      exact List.map_congr_left fun pending member => by rw [agree waiting isPending pending member]
    simp only [asked]

end Steady

end Transclusion.Document
