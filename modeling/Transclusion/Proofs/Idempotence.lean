import Transclusion.CommonMark.Structure
import Transclusion.Proofs.Answers
import Transclusion.Proofs.FilledLayout

/-! Rewriting twice. What a block is filled with is decided by its info string and by the
answers of the source, both of which a rewrite leaves alone; so a second rewrite fills the
same blocks with the same contents, and finds that nothing is to be replaced. -/
namespace Transclusion.Document
variable {options : Options} {answers : Request → Text → Prop}

/-- Where the range of a block is once the edits of a rewrite are made. -/
def rangeAfter (options : Options) (edits : List Edit) (text : Text) (range : Span) : Span :=
  match FencedBlock.locate? text range with
  | none => range
  | some block => range.after edits (directiveToken? options block).isSome block

/-- A scanner finds the same blocks in a rewritten document, where the edits moved them. -/
def FindsFilledBlocks (scan : Scanner) (source : Source Id) (options : Options)
    (text : Text) : Prop :=
  ∀ edits, editsAt source options (scan text) text = .ok edits →
    scan (Edit.applyAll edits text) = (scan text).map (rangeAfter options edits text)

/-- The ranges of sections are moved one by one. -/
private theorem map_rangeAfter {before tail : Text} {parts : List Section} {ranges : List Span}
    (laid : Layout.Laid before parts tail ranges) (edits : List Edit)
    (filled : List.Forall₂ (fun block content =>
      content.isSome = (directiveToken? options block).isSome)
        (Layout.blocks before parts) (parts.map Section.content)) :
    ranges.map (rangeAfter options edits (before ++ Layout.text parts tail)) =
      Layout.rangesAfter edits before parts ranges := by
  induction laid with
  | nil => rfl
  | @cons before part parts tail range ranges proper placed rest ih =>
    obtain ⟨own, others⟩ := List.forall₂_cons.mp filled
    have located := placed.locate?_eq
    have later := ih others
    simp only [List.append_assoc] at located later
    simp only [Layout.text, Layout.rangesAfter, List.map_cons, List.append_assoc, later, rangeAfter,
      located, ← own]

/-- Blocks with the same info strings have the same answers. -/
private theorem answered_congr {blocks others : List FencedBlock} {contents : List (Option Text)}
    (answered : List.Forall₂ (Answered options answers) blocks contents)
    (same : blocks.map FencedBlock.info = others.map FencedBlock.info) :
    List.Forall₂ (Answered options answers) others contents := by
  induction answered generalizing others with
  | nil =>
    rw [List.map_eq_nil_iff.mp same.symm]
    exact .nil
  | cons own rest ih =>
    obtain ⟨other, more, rfl, info, infos⟩ := List.map_eq_cons_iff.mp same.symm
    exact .cons (own.congr info) (ih infos.symm)

/-- In a rewritten document the moved ranges find blocks with the same answers, and their
edits change nothing. -/
theorem filled_again {text : Text} {ranges : List Span} {contents : List (Option Text)}
    (ordered : RangesInOrder text ranges)
    (answered : List.Forall₂ (Answered options answers) (blocksAt ranges text) contents) :
    let edits := ofFilled FencedBlock.edits (blocksAt ranges text) contents
    let out := Edit.applyAll edits text
    let again := blocksAt (ranges.map (rangeAfter options edits text)) out
    List.Forall₂ (Answered options answers) again contents ∧
      Edit.applyAll (ofFilled FencedBlock.edits again contents) out = out := by
  dsimp only
  obtain ⟨parts, tail, rfl, laid, rfl, found⟩ := Layout.exists_sections ordered answered.length_eq
  rw [found] at answered ⊢
  have filled : List.Forall₂ (fun block content =>
      content.isSome = (directiveToken? options block).isSome)
        (Layout.blocks [] parts) (parts.map Section.content) :=
    answered.imp fun _ _ own => own.isSome
  have moved := map_rangeAfter laid (ofFilled FencedBlock.edits (Layout.blocks [] parts)
    (parts.map Section.content)) filled
  rw [List.nil_append] at moved
  obtain ⟨out, after⟩ := laid.filled
  have again := after.blocksAt_eq
  simp only [List.nil_append] at again
  rw [moved, out, again]
  refine ⟨answered_congr answered (Layout.map_info_refilled [] [] [] parts).symm, ?_⟩
  have same := laid.edits_refilled [] []
  exact Edit.applyAll_of_slices (fun edit member => (same edit member).1)
    (fun edit member => (same edit member).2)

/-- A rewritten document is rewritten to itself, also by another source, as long as that one
gives the answers the first gave. -/
theorem rewriteAt_again {source other : Source Id} {ranges : List Span} {text : Text}
    {edits : List Edit} (ordered : RangesInOrder text ranges)
    (made : editsAt source options ranges text = .ok edits)
    (agree : Agree options ranges text source other) :
    rewriteAt other options (ranges.map (rangeAfter options edits text))
      (Edit.applyAll edits text) = Except.ok (Edit.applyAll edits text) := by
  obtain ⟨waiting, contents, isPending, answered, rfl⟩ := exists_answered made
  obtain ⟨again, same⟩ := filled_again ordered answered
  have answeredAgain := again.imp fun _ _ own => own.imp fun request found =>
    show _ → other request = .ok found by
      rintro ⟨answer, pending, isWaiting, rfl⟩
      rw [agree waiting isPending pending isWaiting, answer]
  rw [rewriteAt_eq, editsAt_of_answered answeredAgain]
  exact congrArg Except.ok same

/-- Rewriting a rewritten document changes nothing, for every source that always gives the
same answer to the same request. -/
theorem rewriteAt_idempotent {σ : Type} (source : Source (StateM σ)) (answer : Source Id)
    (scan : Scanner) (options : Options) (text out : Text) (first later : σ)
    (steady : ∀ request state, (source request state).1 = answer request)
    (ordered : RangesInOrder text (scan text))
    (found : FindsFilledBlocks scan answer options text)
    (rewritten : (rewriteAt source options (scan text) text first).1 = .ok out) :
    (rewriteAt source options (scan out) out later).1 = .ok out := by
  rw [rewriteAt_steady steady] at rewritten ⊢
  obtain ⟨edits, made, rfl⟩ := exists_edits rewritten
  rw [found edits made]
  exact rewriteAt_again ordered made fun _ _ _ _ => rfl

/-- A document that ends with an opening line. -/
def openEnd : Text := "```a file=x".toList

/-- Answers every request with one line, and counts the requests. -/
def oneLine : Source (StateM Nat) := fun _ asked => (.ok "new".toList, asked + 1)

/-- The first rewrite ends the opening line and writes a closing fence, the second finds a
closed block. -/
theorem rewriteAt_idempotent_openEnd :
    let out := "```a file=x\nnew\n```".toList
    (rewriteAt oneLine .standard (CommonMark.fencedRanges openEnd) openEnd 0).1 = .ok out ∧
      (rewriteAt oneLine .standard (CommonMark.fencedRanges out) out 1).1 = .ok out := by
  have ordered : RangesInOrder openEnd (CommonMark.fencedRanges openEnd) := by decide +kernel
  have found : FindsFilledBlocks CommonMark.fencedRanges (fun _ => .ok "new".toList) .standard
      openEnd := by
    have made : editsAt (fun _ => .ok "new".toList) .standard (CommonMark.fencedRanges openEnd)
        openEnd = .ok [⟨⟨11, 11⟩, "\nnew\n```".toList⟩] := by decide +kernel
    intro edits isMade
    obtain rfl := Except.ok.inj (made.symm.trans isMade)
    decide +kernel
  have rewritten : (rewriteAt oneLine .standard (CommonMark.fencedRanges openEnd) openEnd 0).1 =
      .ok "```a file=x\nnew\n```".toList := by decide +kernel
  exact ⟨rewritten, rewriteAt_idempotent oneLine (fun _ => .ok "new".toList)
    CommonMark.fencedRanges .standard _ _ 0 1 (fun _ _ => rfl) ordered found rewritten⟩

end Transclusion.Document
