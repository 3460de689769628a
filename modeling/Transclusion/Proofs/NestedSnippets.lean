import Transclusion.Proofs.FenceWidening
import Transclusion.Proofs.NestedLead

/-! How a snippet written into a nested block is read back. Behind a quote marker without
its optional space the walk over the containers takes the first space of a snippet line for
the marker's own. The fence is widened for the snippet as it stands, not for what the walk
leaves of it, so there a line indented by four spaces can close the block. -/
namespace Transclusion
open Text Container

namespace Fence
variable {fence : Fence} {containers : List Container} {line : Text}

/-- A line closes a block exactly when the walk leaves at most three spaces, a run that is
long enough and white space. -/
theorem closing?_isSome_iff (marker : FencedBlock.isMarker fence.marker = true)
    (positive : 0 < fence.length) : (fence.closing? containers line).isSome = true ↔
      ∃ n run blanks, n ≤ 3 ∧ fence.length ≤ run ∧ (∀ c ∈ blanks, isWhiteSpace c = true) ∧
        enterAll? containers line =
          some (List.replicate n ' ' ++ (List.replicate run fence.marker ++ blanks)) := by
  constructor
  · intro found
    obtain ⟨⟨place, length⟩, found⟩ := Option.isSome_iff_exists.mp found
    obtain ⟨front, blanks, n, few, -, blank, enough, -, rfl, again⟩ := closing?_eq_some found
    exact ⟨n, length, blanks, few, enough, blank, again _ rfl⟩
  · rintro ⟨n, run, blanks, few, enough, blank, entered⟩
    obtain ⟨front, rfl, -⟩ := enterAll?_front entered
    have closes := closing?_of_run front marker few (Nat.lt_of_lt_of_le positive enough) enough
      blank entered
    rw [closes]
    rfl

/-- The run at the front of a line that could close a block is the one that is counted. -/
theorem runIn_eq {n run : Nat} {blanks : Text}
    (marker : FencedBlock.isMarker fence.marker = true) (few : n ≤ 3) (positive : 0 < run)
    (blank : ∀ c ∈ blanks, isWhiteSpace c = true) :
    fence.runIn (List.replicate n ' ' ++ (List.replicate run fence.marker ++ blanks)) = run := by
  unfold runIn
  rw [leadingSpaces_replicate, leadingSpaces_eq_zero (head?_run marker positive blanks),
    Nat.add_zero, if_pos few, drop_spaces]
  exact countWhile_run marker run blank

end Fence

namespace FencedBlock
variable {lead : Lead} {block : FencedBlock} {line : Text} {lines : List Text}

/-- A line of the body without its newline. -/
def writtenLine (block : FencedBlock) (line : Text) : Text :=
  if line.isEmpty then block.linePrefix.trimEnd else block.linePrefix ++ line

/-- This is what is written of a snippet line. -/
theorem bodyLine_eq (block : FencedBlock) (line : Text) :
    block.bodyLine line = block.writtenLine line ++ ['\n'] := by
  unfold bodyLine writtenLine
  split <;> rfl

/-- The walk over a written line leaves the line behind the indentation of the fence exactly
when it is not in debt, or only to a line that starts with no space. -/
theorem read_back_iff (valid : lead.Valid) (prefixed : block.linePrefix = continuation lead.text)
    (nonempty : line ≠ []) :
    enterAll? (ofLead lead.text) (block.writtenLine line) =
        some (List.replicate lead.indent ' ' ++ line) ↔
      lead.debt = .settled ∨ lead.debt = .bare ∧ line.head? ≠ some ' ' := by
  have written : block.writtenLine line = continuation lead.text ++ line := by
    simp [writtenLine, nonempty, prefixed]
  rw [written, Lead.enterAll?_continued valid]
  cases debt : lead.debt with
  | settled => simp [Debt.leaves]
  | bare =>
    rw [valid.indent_eq_zero (Or.inl debt)]
    simp [Debt.leaves, dropSpace_eq_self_iff]
  | owed =>
    rw [valid.indent_eq_zero (Or.inr debt)]
    simp [Debt.leaves_owed]
  | lost => simp [Debt.leaves]

/-- A line that the fence was widened for closes no block where the walk leaves it whole. -/
theorem not_run {fence : Fence} {n run : Nat} {blanks : Text} (member : line ∈ lines)
    (marker : isMarker fence.marker = true) (few : n ≤ 3)
    (enough : (fence.widenFor lines).length ≤ run)
    (blank : ∀ c ∈ blanks, isWhiteSpace c = true) :
    line ≠ List.replicate n ' ' ++ (List.replicate run fence.marker ++ blanks) := by
  rintro rfl
  have positive : 0 < run :=
    calc 0 ≤ _ := Nat.zero_le _
      _ < (fence.widenFor lines).length := Fence.longest_lt_widenFor fence lines
      _ ≤ run := enough
  have shorter : _ < (fence.widenFor lines).length := Fence.runIn_lt_widenFor member
  rw [Fence.runIn_eq marker few positive blank] at shorter
  omega

/-- A line of white space that closes a block once the walk has taken its first space. -/
def ClosesIndented (fence : Fence) (line : Text) : Prop :=
  ∃ run blanks, line = List.replicate 4 ' ' ++ (List.replicate run fence.marker ++ blanks) ∧
    fence.length ≤ run ∧ ∀ c ∈ blanks, isWhiteSpace c = true

/-- The prefix of an empty line holds no run of markers. -/
private theorem not_closing_empty {fence : Fence} (marker : isMarker fence.marker = true)
    (positive : 0 < fence.length) (text : Text) (containers : List Container) :
    ¬ (fence.closing? containers (continuation text).trimEnd).isSome = true := by
  intro closes
  obtain ⟨n, run, blanks, -, enough, -, entered⟩ :=
    (Fence.closing?_isSome_iff marker positive).mp closes
  obtain ⟨front, whole, -⟩ := enterAll?_front entered
  have inPrefix : fence.marker ∈ (continuation text).trimEnd := by
    rw [whole]
    have nonzero : run ≠ 0 := by omega
    simp [nonzero]
  obtain ⟨dropped, split, -⟩ := exists_dropEndWhile isWhiteSpace (continuation text)
  have inContinuation : fence.marker ∈ continuation text := by
    rw [split]
    exact List.mem_append_left _ inPrefix
  obtain ⟨c, -, same⟩ := List.mem_map.mp inContinuation
  obtain ⟨notWhite, notSpace, notQuote, -⟩ := isMarker_not_space marker
  split at same
  · next kept =>
    subst same
    rcases isMarker_iff.mp marker with isTick | isTilde
    · simp [isTick] at kept
    · simp [isTilde] at kept
  · exact notSpace same.symm

section Closing
variable {n run : Nat} {blanks : Text}

/-- A line that closes the block behind a space that the walk took has four spaces. -/
private theorem closesIndented_of_space (member : line ∈ lines)
    (marker : isMarker block.fence.marker = true) (few : n ≤ 3)
    (enough : (block.fence.widenFor lines).length ≤ run)
    (blank : ∀ c ∈ blanks, isWhiteSpace c = true)
    (whole : line = ' ' :: (List.replicate n ' ' ++
      (List.replicate run block.fence.marker ++ blanks))) :
    ClosesIndented (block.fence.widenFor lines) line := by
  have behind : line = List.replicate (n + 1) ' ' ++
      (List.replicate run block.fence.marker ++ blanks) := whole
  have notFewer : ¬ n + 1 ≤ 3 := fun fewer => not_run member marker fewer enough blank behind
  obtain rfl : n = 3 := by omega
  exact ⟨run, blanks, by rw [Fence.widenFor_marker]; exact behind, enough, blank⟩

/-- A line that is left whole behind the indentation of the fence does not close the block. -/
private theorem not_closing_indented {indent : Nat} (member : line ∈ lines)
    (marker : isMarker block.fence.marker = true) (few : n ≤ 3)
    (enough : (block.fence.widenFor lines).length ≤ run) (positive : 0 < run)
    (blank : ∀ c ∈ blanks, isWhiteSpace c = true) :
    List.replicate indent ' ' ++ line ≠
      List.replicate n ' ' ++ (List.replicate run block.fence.marker ++ blanks) := by
  intro whole
  have spaces := congrArg leadingSpaces whole
  rw [leadingSpaces_replicate, leadingSpaces_replicate,
    leadingSpaces_eq_zero (Fence.head?_run marker positive blanks), Nat.add_zero] at spaces
  rw [← spaces, List.replicate_add, List.append_assoc, List.append_cancel_left_eq] at whole
  exact not_run member marker (by omega) enough blank whole

/-- What the walk leaves of a line that closes the block tells the debt of the walk. -/
private theorem debt_of_closing (valid : lead.Valid) (member : line ∈ lines)
    (marker : isMarker block.fence.marker = true) (few : n ≤ 3)
    (enough : (block.fence.widenFor lines).length ≤ run) (positive : 0 < run)
    (blank : ∀ c ∈ blanks, isWhiteSpace c = true)
    (left : lead.debt.leaves (List.replicate lead.indent ' ' ++ line) =
      some (List.replicate n ' ' ++ (List.replicate run block.fence.marker ++ blanks))) :
    (lead.debt = .bare ∨ lead.debt = .owed) ∧
      ClosesIndented (block.fence.widenFor lines) line := by
  have indented := closesIndented_of_space member marker few enough blank
  cases debt : lead.debt with
  | settled =>
    rw [debt] at left
    exact absurd (Option.some.inj left)
      (not_closing_indented member marker few enough positive blank)
  | bare =>
    rw [debt, valid.indent_eq_zero (Or.inl debt)] at left
    have dropped : dropSpace line = List.replicate n ' ' ++
        (List.replicate run block.fence.marker ++ blanks) := Option.some.inj left
    rcases eq_of_dropSpace line with space | ⟨same, -⟩
    · rw [dropped] at space
      exact ⟨Or.inl rfl, indented space⟩
    · rw [dropped] at same
      exact absurd same (not_run member marker few enough blank)
  | owed =>
    rw [debt, valid.indent_eq_zero (Or.inr debt)] at left
    exact ⟨Or.inr rfl, indented (Debt.leaves_owed.mp left)⟩
  | lost =>
    rw [debt] at left
    cases left

end Closing

/-- A written line closes the block with the fence that was chosen exactly where the walk is
short of a space and the line is a closing line behind four spaces. -/
theorem closes_iff (valid : lead.Valid) (prefixed : block.linePrefix = continuation lead.text)
    (marker : isMarker block.fence.marker = true) (member : line ∈ lines) :
    ((block.fence.widenFor lines).closing? (ofLead lead.text) (block.writtenLine line)).isSome ↔
      (lead.debt = .bare ∨ lead.debt = .owed) ∧
        ClosesIndented (block.fence.widenFor lines) line := by
  have sameMarker := Fence.widenFor_marker block.fence lines
  have positive : 0 < (block.fence.widenFor lines).length :=
    Nat.lt_of_le_of_lt (Nat.zero_le _) (Fence.longest_lt_widenFor block.fence lines)
  have chosenMarker : isMarker (block.fence.widenFor lines).marker = true := by
    rw [sameMarker]
    exact marker
  by_cases empty : line = []
  · subst empty
    have written : block.writtenLine [] = (continuation lead.text).trimEnd := by
      simp [writtenLine, prefixed]
    rw [written]
    refine ⟨fun closes => absurd closes (not_closing_empty chosenMarker positive _ _), ?_⟩
    rintro ⟨-, run, blanks, whole, -⟩
    cases whole
  have written : block.writtenLine line = continuation lead.text ++ line := by
    simp [writtenLine, empty, prefixed]
  rw [written, Fence.closing?_isSome_iff chosenMarker positive, Lead.enterAll?_continued valid,
    sameMarker]
  constructor
  · rintro ⟨n, run, blanks, few, enough, blank, left⟩
    exact debt_of_closing valid member marker few enough (Nat.lt_of_lt_of_le positive enough)
      blank left
  · rintro ⟨short, run, blanks, rfl, enough, blank⟩
    refine ⟨3, run, blanks, Nat.le_refl 3, enough, blank, ?_⟩
    rw [valid.indent_eq_zero short, sameMarker]
    rcases short with debt | debt
    · rw [debt]
      rfl
    · rw [debt]
      rfl

/-- The body holds the lines of a snippet, each behind the lead and with a newline. Behind a lead
that a fence may have they are read back as they were, and leave the block open, as long as
the walk owes nothing at the fence. Behind a quote marker without
its space a line is read back if it starts with no space; with a list marker in between no
line is; and in both cases one that closes the block behind four spaces does close it,
however much the fence was widened. -/
theorem snippet_read_back_iff (lead : Lead) (valid : lead.Valid) (block : FencedBlock)
    (prefixed : block.linePrefix = continuation lead.text)
    (marker : isMarker block.fence.marker = true) (content : Text) :
    let lines := contentLines content
    (∀ line ∈ lines, block.bodyLine line = block.writtenLine line ++ ['\n']) ∧
    (∀ line ∈ lines, line ≠ [] →
      (enterAll? (ofLead lead.text) (block.writtenLine line) =
          some (List.replicate lead.indent ' ' ++ line) ↔
        lead.debt = .settled ∨ lead.debt = .bare ∧ line.head? ≠ some ' ')) ∧
    ∀ line ∈ lines,
      (((block.fence.widenFor lines).closing? (ofLead lead.text) (block.writtenLine line)).isSome ↔
        (lead.debt = .bare ∨ lead.debt = .owed) ∧
          ClosesIndented (block.fence.widenFor lines) line) :=
  ⟨fun line _ => block.bodyLine_eq line,
    fun _ _ nonempty => read_back_iff valid prefixed nonempty,
    fun _ member => closes_iff valid prefixed marker member⟩

/-- The block of a document whose quote marker stands right in front of the fence. -/
def bareQuoted : FencedBlock where
  line := 1
  info := "js url=a.js".toList
  fence := ⟨'`', 3⟩
  opening := ⟨1, 4⟩
  closing := some ⟨17, 20⟩
  body := ⟨16, 16⟩
  linePrefix := ['>']
  openingHasNewline := true
  endsWithNewline := true

/-- Its fence is not widened for a fence behind four spaces, which closes it there. -/
theorem snippet_read_back_iff_bareQuoted :
    locate? ">```js url=a.js\n>```\n".toList ⟨1, 21⟩ = some bareQuoted ∧
      bareQuoted.fence.widenFor (contentLines "    ```".toList) = bareQuoted.fence ∧
      (bareQuoted.fence.closing? (ofLead ['>']) (bareQuoted.writtenLine "    ```".toList)).isSome := by
  refine ⟨by decide +kernel, by decide +kernel, ?_⟩
  have valid : Lead.Valid ⟨[.quote 0 false], 0⟩ :=
    ⟨Nat.zero_le 3, nofun, Nat.zero_le 3, fun _ => rfl⟩
  have closes := (snippet_read_back_iff _ valid bareQuoted rfl rfl "    ```".toList).2.2
    "    ```".toList (by decide +kernel)
  exact closes.mpr ⟨Or.inl rfl, 3, [], rfl, by decide +kernel, nofun⟩

end FencedBlock
end Transclusion
