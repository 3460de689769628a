import Transclusion.Document

/-! Which failure of a document is reported. Directives are read before anything is
fetched, so the first malformed one decides; otherwise the answers decide, and of the
failures among them the one whose block comes first. -/
namespace Transclusion.Document
variable {options : Options} {text : Text}

/-- What the first recognised token of a block is read as, if the block has one. -/
def reading? (options : Options) (block : FencedBlock) :
    Option (Except Directive.SyntaxError Directive) :=
  (directiveToken? options block).map fun token =>
    Directive.parse token options.rootDir options.prefixes

/-- The blocks that carry a directive, in document order. -/
def carrying (options : Options) (blocks : List FencedBlock) : List PendingBlock :=
  blocks.filterMap fun block =>
    match reading? options block with
    | some (.ok directive) => some ⟨block, directive⟩
    | _ => none

/-- No block has a malformed directive. -/
def WellFormed (options : Options) (blocks : List FencedBlock) : Prop :=
  ∀ block ∈ blocks, ∀ cause, reading? options block ≠ some (.error cause)

instance (options : Options) (blocks : List FencedBlock) :
    Decidable (WellFormed options blocks) :=
  decidable_of_iff (∀ block ∈ blocks, ∀ read ∈ reading? options block, read.isOk) <| by
    refine forall₂_congr fun block _ => ?_
    cases reading? options block with
    | none => simp
    | some read => cases read <;> simp [Except.isOk, Except.toBool]

theorem reading?_of_token {block : FencedBlock} {token : Text}
    (found : directiveToken? options block = some token) :
    reading? options block = some (Directive.parse token options.rootDir options.prefixes) := by
  rw [reading?, found, Option.map_some]

theorem carrying_cons_of_ok {block : FencedBlock} {blocks : List FencedBlock}
    {directive : Directive} (read : reading? options block = some (.ok directive)) :
    carrying options (block :: blocks) = ⟨block, directive⟩ :: carrying options blocks :=
  List.filterMap_cons_some (by simp only [read])

theorem carrying_cons_of_not {block : FencedBlock} {blocks : List FencedBlock}
    (without : ¬ ∃ directive, reading? options block = some (.ok directive)) :
    carrying options (block :: blocks) = carrying options blocks := by
  refine List.filterMap_cons_none ?_
  split
  · next directive read => exact absurd ⟨directive, read⟩ without
  · rfl

/-- Without a malformed directive all blocks with one wait for their sources. -/
theorem pending_of_wellFormed {blocks : List FencedBlock} (proper : WellFormed options blocks) :
    pending options blocks = .ok (carrying options blocks) := by
  induction blocks with
  | nil => rfl
  | cons block blocks ih =>
    have rest := ih fun other member => proper other (List.mem_cons_of_mem _ member)
    have own := proper block List.mem_cons_self
    rw [pending]
    cases found : directiveToken? options block with
    | none =>
      rw [carrying_cons_of_not (by simp [reading?, found])]
      exact rest
    | some token =>
      have read := reading?_of_token found
      cases parsed : Directive.parse token options.rootDir options.prefixes with
      | error cause => exact absurd (parsed ▸ read) (own cause)
      | ok directive =>
        rw [parsed] at read
        simp only [parsed, rest, carrying_cons_of_ok read, Except.map]

/-- The first malformed directive is reported. -/
theorem pending_of_malformed {before after : List FencedBlock} {block : FencedBlock}
    {cause : Directive.SyntaxError} (proper : WellFormed options before)
    (malformed : reading? options block = some (.error cause)) :
    pending options (before ++ block :: after) = .error (.directive block.line cause) := by
  induction before with
  | nil =>
    obtain ⟨token, found, parsed⟩ := Option.map_eq_some_iff.mp malformed
    rw [List.nil_append, pending, found]
    simp only [parsed]
  | cons first before ih =>
    have rest := ih fun other member => proper other (List.mem_cons_of_mem _ member)
    have own := proper first List.mem_cons_self
    rw [List.cons_append, pending]
    cases found : directiveToken? options first with
    | none => exact rest
    | some token =>
      have read := reading?_of_token found
      cases parsed : Directive.parse token options.rootDir options.prefixes with
      | error cause => exact absurd (parsed ▸ read) (own cause)
      | ok directive => simp only [parsed, rest, Except.map]

/-- Answers that are all texts fill all blocks. -/
theorem fillAll_of_sources (sources : List (PendingBlock × Text)) :
    fillAll options (sources.map fun (pending, source) => (pending, .ok source)) =
      .ok (sources.flatMap fun (pending, source) => pending.edits options source) := by
  induction sources with
  | nil => rfl
  | cons first sources ih =>
    rw [List.map_cons, fillAll, ih]
    rfl

/-- Of the failures among the answers the first is reported. -/
theorem fillAll_of_failed {before after : List (PendingBlock × Except FetchError Text)}
    {pending : PendingBlock} {cause : FetchError}
    (succeeded : ∀ earlier ∈ before, ∃ source, earlier.2 = .ok source) :
    fillAll options (before ++ (pending, .error cause) :: after) =
      .error (.fetch pending.block.line cause) := by
  induction before with
  | nil => rfl
  | cons first before ih =>
    have rest := ih fun earlier member => succeeded earlier (List.mem_cons_of_mem _ member)
    obtain ⟨own, answer⟩ := first
    obtain ⟨source, rfl⟩ := succeeded (own, answer) List.mem_cons_self
    rw [List.cons_append, fillAll, rest]
    rfl

/-- Either all answers are texts, or there is a first that is not. -/
theorem sources_or_failed (answers : List (PendingBlock × Except FetchError Text)) :
    (∃ sources : List (PendingBlock × Text),
        answers = sources.map fun (pending, source) => (pending, .ok source)) ∨
      ∃ before pending cause after, answers = before ++ (pending, .error cause) :: after ∧
        ∀ earlier ∈ before, ∃ source, earlier.2 = .ok source := by
  induction answers with
  | nil => exact Or.inl ⟨[], rfl⟩
  | cons first answers ih =>
    obtain ⟨own, answer⟩ := first
    cases answer with
    | error cause => exact Or.inr ⟨[], own, cause, answers, rfl, by simp⟩
    | ok source =>
      rcases ih with ⟨sources, rfl⟩ | ⟨before, pending, cause, after, rfl, succeeded⟩
      · exact Or.inl ⟨(own, source) :: sources, rfl⟩
      · refine Or.inr ⟨(own, .ok source) :: before, pending, cause, after, rfl, ?_⟩
        intro earlier member
        rcases List.mem_cons.mp member with rfl | later
        · exact ⟨source, rfl⟩
        · exact succeeded earlier later

end Transclusion.Document
