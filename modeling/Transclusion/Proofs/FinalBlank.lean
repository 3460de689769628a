import Mathlib.Data.List.Intervals
import Transclusion.Proofs.LineSeams

/-! The empty line at the end of a selection. A source whose last line is empty ends with a
newline or is itself empty; the flag of a selection does not tell the two apart. Where the
flag is set the lines joined end with a newline exactly if the empty line is not alone. -/
namespace Transclusion

namespace Text

/-- The last line is empty where another could start behind the text. -/
theorem getLast?_lines_eq_nil_iff (text : Text) : text.lines.getLast? = some [] ↔ EndsLine text := by
  obtain ⟨before, line, rfl, ends, free⟩ := FencedBlock.exists_line_at_end text
  have last : (lines (before ++ line)).getLast? = some line := by
    have alone : lines line = [line] := splitOn_of_not_mem free
    rcases ends with rfl | newline
    · rw [List.nil_append, alone, List.getLast?_singleton]
    · obtain ⟨front, rfl⟩ := List.getLast?_eq_some_iff.mp newline
      have split : lines (front ++ '\n' :: line) = lines front ++ lines line :=
        splitOn_append '\n' front line
      rw [List.append_assoc, List.singleton_append, split, alone, List.getLast?_concat]
  rw [last, Option.some.injEq]
  constructor
  · rintro rfl
    rwa [List.append_nil]
  · intro endsLine
    by_contra nonempty
    rcases endsLine.of_append nonempty with none | newline
    · exact nonempty none
    · exact free (List.mem_of_getLast? newline)

/-- Joined lines of which the last is empty end with a newline, unless that line is alone. -/
theorem getLast?_unlines_concat_nil (front : List Text) :
    (unlines (front ++ [[]])).getLast? = some '\n' ↔ front ≠ [] := by
  by_cases none : front = []
  · subst none
    simp [unlines, joinWith]
  · rw [unlines_concat_nil none, List.getLast?_concat]
    exact iff_of_true rfl none

end Text

namespace LineRange
open Text
variable {range : LineRange} {text : Text} {keepFinalNewline : Bool} {number : Nat}

/-- A line of this number is meant, in a source that has one. -/
def Covers : LineRange → Nat → Prop
  | whole, _ => True
  | single line, number => number = line
  | onward first, number => first ≤ number
  | closed first last, number => first ≤ number ∧ number ≤ last

/-- The line of this number is selected. Only an empty line at the end of the source can be
covered and not selected, by a range that goes on to the end and does not keep it. -/
def Selects (range : LineRange) (text : Text) (keepFinalNewline : Bool) (number : Nat) : Prop :=
  range.Covers number ∧
    (range.IsOpen → keepFinalNewline = false → EndsLine text → number ≠ text.lines.length)

instance (range : LineRange) : DecidablePred range.Covers :=
  match range with
  | whole => fun _ => isTrue trivial
  | single line => fun number => inferInstanceAs (Decidable (number = line))
  | onward first => fun number => inferInstanceAs (Decidable (first ≤ number))
  | closed first last => fun number =>
    inferInstanceAs (Decidable (first ≤ number ∧ number ≤ last))

instance (range : LineRange) (text : Text) (keepFinalNewline : Bool) :
    DecidablePred (range.Selects text keepFinalNewline) := fun number =>
  inferInstanceAs (Decidable (range.Covers number ∧
    (range.IsOpen → keepFinalNewline = false → EndsLine text → number ≠ text.lines.length)))

/-- The numbers of the selected lines, counted from 1 and in their order. -/
def selectedNumbers (range : LineRange) (text : Text) (keepFinalNewline : Bool) : List Nat :=
  (List.Ico 1 (text.lines.length + 1)).filter (range.Selects text keepFinalNewline)

/-- The flag of a selection is set exactly when the last selected line is the empty one behind
the final newline of the source. -/
def FlagsFinalBlank (range : LineRange) (text : Text) (keepFinalNewline : Bool) : Prop :=
  (range.select text keepFinalNewline).trailingBlank = true ↔
    text.getLast? = some '\n' ∧
      (range.selectedNumbers text keepFinalNewline).getLast? = some text.lines.length

/-- Where the flag of a selection is set, its text ends with a newline. -/
def FlagsNewline (range : LineRange) (text : Text) (keepFinalNewline : Bool) : Prop :=
  (range.select text keepFinalNewline).trailingBlank = true →
    (range.select text keepFinalNewline).toText.getLast? = some '\n'

/-- How far a range reaches in its source. -/
def stop (range : LineRange) (text : Text) (keepFinalNewline : Bool) : Nat :=
  min (range.last text.lines.length (text.lines.getLast? == some []) keepFinalNewline)
    text.lines.length

/-- An open range reaches to the end of its source, but for an empty line that is not kept. -/
theorem stop_of_isOpen (isOpen : range.IsOpen) :
    range.stop text keepFinalNewline =
      if EndsLine text ∧ keepFinalNewline = false then text.lines.length - 1
      else text.lines.length := by
  rw [stop, last_of_isOpen isOpen]
  simp only [Bool.and_eq_true, beq_iff_eq, Bool.not_eq_true', getLast?_lines_eq_nil_iff]
  split
  · exact Nat.min_eq_left (Nat.sub_le _ _)
  · exact Nat.min_self _

theorem covers_iff_of_isOpen (isOpen : range.IsOpen) (positive : 1 ≤ number) :
    range.Covers number ↔ range.first ≤ number := by
  cases range with
  | whole => exact iff_of_true trivial positive
  | onward first => exact Iff.rfl
  | single line | closed first last => exact absurd isOpen id

/-- A line is selected when it stands neither before the first line of the range nor behind the
last. -/
theorem selects_iff (positive : 1 ≤ number) (inside : number ≤ text.lines.length) :
    range.Selects text keepFinalNewline number ↔
      range.first ≤ number ∧ number ≤ range.stop text keepFinalNewline := by
  by_cases isOpen : range.IsOpen
  · rw [Selects, covers_iff_of_isOpen isOpen positive, stop_of_isOpen isOpen]
    apply and_congr_right'
    split
    · next dropped =>
      simp only [isOpen, dropped, true_implies]
      omega
    · next kept =>
      refine iff_of_true (fun _ unkept blank => ?_) inside
      exact absurd ⟨blank, unkept⟩ kept
  · rw [Selects, and_iff_left fun open' => absurd open' isOpen, stop, Nat.le_min,
      and_iff_left inside]
    cases range with
    | whole | onward first => exact absurd trivial isOpen
    | closed first last => exact Iff.rfl
    | single line =>
      exact ⟨fun same => ⟨same.ge, same.le⟩, fun bounds => Nat.le_antisymm bounds.2 bounds.1⟩

/-- The numbers of the selected lines are those from the first line of the range to the last. -/
theorem selectedNumbers_eq (range : LineRange) (text : Text) (keepFinalNewline : Bool) :
    range.selectedNumbers text keepFinalNewline =
      List.Ico (range.first - 1 + 1) (range.stop text keepFinalNewline + 1) := by
  have inside : range.stop text keepFinalNewline ≤ text.lines.length := Nat.min_le_right _ _
  have between : ∀ number ∈ List.Ico 1 (text.lines.length + 1),
      decide (range.Selects text keepFinalNewline number) =
        (decide (range.first ≤ number) &&
          decide (number < range.stop text keepFinalNewline + 1)) := by
    intro number member
    obtain ⟨positive, bound⟩ := List.Ico.mem.mp member
    rw [← Bool.decide_and, decide_eq_decide, selects_iff positive (Nat.le_of_lt_succ bound),
      Nat.lt_succ_iff]
  rw [selectedNumbers, List.filter_congr between, ← List.filter_filter, List.Ico.filter_lt,
    List.Ico.filter_le]
  congr 1 <;> omega

/-- The number of the last selected line, if any is selected. -/
theorem getLast?_selectedNumbers (range : LineRange) (text : Text) (keepFinalNewline : Bool) :
    (range.selectedNumbers text keepFinalNewline).getLast? =
      if range.stop text keepFinalNewline ≤ range.first - 1 then none
      else some (range.stop text keepFinalNewline) := by
  rw [selectedNumbers_eq]
  split
  · next nothing =>
    rw [List.Ico.eq_nil_of_le (Nat.succ_le_succ nothing)]
    rfl
  · next some =>
    rw [List.Ico.succ_top (Nat.lt_of_not_le some), List.getLast?_concat]

/-- The selected lines are those with the selected numbers. -/
theorem map_some_lines_select (range : LineRange) (text : Text) (keepFinalNewline : Bool) :
    (range.select text keepFinalNewline).lines.map some =
      (range.selectedNumbers text keepFinalNewline).map (text.lines[· - 1]?) := by
  rw [lines_select, selectedNumbers_eq, stop]
  generalize range.last _ _ _ = last
  generalize range.first - 1 = skipped
  apply List.ext_getElem
  · rw [List.length_map, List.length_drop, List.length_take, List.length_map, List.Ico.length]
    omega
  · intro position inside numbered
    rw [List.length_map, List.Ico.length] at numbered
    have there : skipped + position < text.lines.length := by omega
    have number : skipped + 1 + position - 1 = skipped + position := by omega
    simp [List.Ico, List.getElem?_eq_getElem there, number]

/-- The flag of a selection is set exactly when the last line is empty and selected. -/
theorem trailingBlank_select_iff (range : LineRange) (text : Text) (keepFinalNewline : Bool) :
    (range.select text keepFinalNewline).trailingBlank = true ↔
      EndsLine text ∧
        (range.selectedNumbers text keepFinalNewline).getLast? = some text.lines.length := by
  rw [getLast?_selectedNumbers, ← getLast?_lines_eq_nil_iff]
  unfold select stop
  dsimp only
  split
  · simp [Selection.empty]
  · simp

/-- The empty line is the last of the lines and its number the last of the numbers. -/
theorem exists_front_of_trailingBlank
    (flagged : (range.select text keepFinalNewline).trailingBlank = true) :
    ∃ front before, (range.select text keepFinalNewline).lines = front ++ [[]] ∧
      range.selectedNumbers text keepFinalNewline = before ++ [text.lines.length] ∧
      front.length = before.length := by
  obtain ⟨ends, last⟩ := (trailingBlank_select_iff range text keepFinalNewline).mp flagged
  have numbered := map_some_lines_select range text keepFinalNewline
  obtain ⟨before, counted⟩ := List.getLast?_eq_some_iff.mp last
  have blank : text.lines[text.lines.length - 1]? = some [] := by
    rw [← List.getLast?_eq_getElem?]
    exact (getLast?_lines_eq_nil_iff text).mpr ends
  rw [counted, List.map_append, List.map_singleton, blank] at numbered
  obtain ⟨front, behind, split, fronts, final⟩ := List.map_eq_append_iff.mp numbered
  obtain ⟨line, rfl, empty⟩ := List.map_eq_singleton_iff.mp final
  obtain rfl := Option.some.inj empty
  exact ⟨front, before, split, counted, by simpa using congrArg List.length fronts⟩

/-- The flag cannot tell an empty source from one that ends with a newline. -/
theorem flagsFinalBlank_iff (range : LineRange) (text : Text) (keepFinalNewline : Bool) :
    range.FlagsFinalBlank text keepFinalNewline ↔
      ¬ (text = [] ∧ range.selectedNumbers text keepFinalNewline = [1]) := by
  unfold FlagsFinalBlank
  rw [trailingBlank_select_iff]
  by_cases empty : text = []
  · subst empty
    have alone : (range.selectedNumbers [] keepFinalNewline).getLast? = some 1 ↔
        range.selectedNumbers [] keepFinalNewline = [1] := by
      have only : List.Ico 1 (lines []).length.succ = [1] := List.Ico.succ_singleton
      rw [selectedNumbers, only]
      by_cases selected : range.Selects [] keepFinalNewline 1
      · simp [selected]
      · simp [selected]
    simp [EndsLine, lines, alone]
  · simp [EndsLine, empty]

/-- The text of a selection ends with a newline where the empty line at its end is not alone. -/
theorem flagsNewline_iff (range : LineRange) (text : Text) (keepFinalNewline : Bool) :
    range.FlagsNewline text keepFinalNewline ↔
      ¬ (EndsLine text ∧
        range.selectedNumbers text keepFinalNewline = [text.lines.length]) := by
  unfold FlagsNewline
  by_cases flagged : (range.select text keepFinalNewline).trailingBlank = true
  · obtain ⟨front, before, split, counted, same⟩ := exists_front_of_trailingBlank flagged
    have ends := ((trailingBlank_select_iff range text keepFinalNewline).mp flagged).1
    have alone : before ++ [text.lines.length] = [text.lines.length] ↔ front = [] := by
      rw [List.append_left_eq_self, ← List.length_eq_zero_iff, ← same, List.length_eq_zero_iff]
    rw [Selection.toText, split, getLast?_unlines_concat_nil, counted, alone]
    exact ⟨fun newline both => newline flagged both.2, fun notBoth _ none => notBoth ⟨ends, none⟩⟩
  · refine iff_of_true (fun set => absurd set flagged) ?_
    rintro ⟨ends, alone⟩
    apply flagged
    rw [trailingBlank_select_iff, alone]
    exact ⟨ends, rfl⟩

/-- The flag of a selection is set exactly when the last line of the source is empty and
selected. This is the line behind a final newline, except in an empty source; and the text of
the selection ends with a newline then, except where the line is selected alone. -/
theorem trailingBlank_truthful_iff (range : LineRange) (text : Text) (keepFinalNewline : Bool) :
    (range.select text keepFinalNewline).lines.map some =
        (range.selectedNumbers text keepFinalNewline).map (text.lines[· - 1]?) ∧
      ((range.select text keepFinalNewline).trailingBlank = true ↔ EndsLine text ∧
        (range.selectedNumbers text keepFinalNewline).getLast? = some text.lines.length) ∧
      (range.FlagsFinalBlank text keepFinalNewline ↔
        ¬ (text = [] ∧ range.selectedNumbers text keepFinalNewline = [1])) ∧
      (range.FlagsNewline text keepFinalNewline ↔ ¬ (EndsLine text ∧
        range.selectedNumbers text keepFinalNewline = [text.lines.length])) :=
  ⟨map_some_lines_select range text keepFinalNewline,
    trailingBlank_select_iff range text keepFinalNewline,
    flagsFinalBlank_iff range text keepFinalNewline,
    flagsNewline_iff range text keepFinalNewline⟩

/-- All of an empty source is flagged without a final newline. The line behind a final newline is
flagged rightly, but alone it is an empty text. -/
theorem trailingBlank_truthful_iff_alone :
    (¬ whole.FlagsFinalBlank [] true ∧ ¬ whole.FlagsNewline [] true) ∧
      (single 2).FlagsFinalBlank "a\n".toList false ∧
      ¬ (single 2).FlagsNewline "a\n".toList false ∧
      (onward 1).FlagsFinalBlank "a\n".toList true ∧ (onward 1).FlagsNewline "a\n".toList true := by
  obtain ⟨-, -, emptyBlank, emptyNewline⟩ := trailingBlank_truthful_iff whole [] true
  obtain ⟨-, -, lineBlank, lineNewline⟩ := trailingBlank_truthful_iff (single 2) "a\n".toList false
  obtain ⟨-, -, allBlank, allNewline⟩ := trailingBlank_truthful_iff (onward 1) "a\n".toList true
  rw [emptyBlank, emptyNewline, lineBlank, lineNewline, allBlank, allNewline]
  decide

end LineRange
end Transclusion
