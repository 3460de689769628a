import Transclusion.Fragment
import Transclusion.LineRange.Checked
import Transclusion.Proofs.Lines
import Transclusion.Text.Utf8

/-! Ranges that adjoin. Every range selects the lines between two positions, so what two ranges
select side by side is what the range over both of them does, and ranges that name the same
positions in different ways select the same. An open range without the final newline of its
source selects what it does with it, but for that newline. -/
namespace Transclusion

namespace Text

/-- A text without the newline at its end, if there is one. -/
def withoutFinalNewline (text : Text) : Text :=
  if text.getLast? = some '\n' then text.dropLast else text

theorem length_splitOn_le (sep : Char) (text : Text) :
    (splitOn sep text).length ≤ text.length + 1 := by
  induction text with
  | nil => simp
  | cons c rest ih =>
    unfold splitOn
    by_cases same : c = sep
    · rw [if_pos same]
      simpa using ih
    · rw [if_neg same]
      cases pieces : splitOn sep rest with
      | nil => simp
      | cons piece more =>
        rw [pieces] at ih
        simp only [List.length_cons] at ih ⊢
        omega

theorem length_le_byteLength (text : Text) : text.length ≤ text.byteLength := by
  induction text with
  | nil => simp
  | cons c rest ih =>
    have size := c.utf8Size_pos
    rw [byteLength, List.length_cons]
    omega

/-- A text has at most one line more than it has bytes. -/
theorem length_lines_le (text : Text) : text.lines.length ≤ text.byteLength + 1 :=
  Nat.le_trans (length_splitOn_le '\n' text) (Nat.succ_le_succ (length_le_byteLength text))

/-- An empty line at the end of others leaves a newline when they are joined. -/
theorem unlines_concat_nil {pieces : List Text} (nonempty : pieces ≠ []) :
    unlines (pieces ++ [[]]) = unlines pieces ++ ['\n'] :=
  joinWith_append '\n' nonempty (by simp)

theorem withoutFinalNewline_unlines (pieces : List Text) :
    withoutFinalNewline (unlines (pieces ++ [[]])) = unlines pieces := by
  by_cases none : pieces = []
  · subst none
    rfl
  · rw [unlines_concat_nil none, withoutFinalNewline, if_pos (by simp), List.dropLast_concat]

/-- Lines that do not end with an empty one leave none. -/
theorem withoutFinalNewline_unlines_self {pieces : List Text}
    (free : ∀ piece ∈ pieces, '\n' ∉ piece) (last : pieces.getLast? ≠ some []) :
    withoutFinalNewline (unlines pieces) = unlines pieces := by
  apply if_neg
  intro ends
  cases found : pieces.getLast? with
  | none =>
    rw [List.getLast?_eq_none_iff.mp found] at ends
    cases ends
  | some piece =>
    obtain ⟨front, rfl⟩ := List.getLast?_eq_some_iff.mp found
    have nonempty : piece ≠ [] := by
      rintro rfl
      exact last found
    have endsPiece : piece.getLast? = some '\n' := by
      by_cases alone : front = []
      · subst alone
        exact ends
      · have joined : unlines (front ++ [piece]) = unlines front ++ '\n' :: piece :=
          joinWith_append '\n' alone (by simp)
        rw [joined, List.getLast?_append_of_ne_nil _ (by simp)] at ends
        rwa [List.getLast?_cons_of_ne_nil nonempty] at ends
    exact free piece (by simp) (List.mem_of_getLast? endsPiece)

end Text

namespace LineRange
open Text
variable {range : LineRange} {text : Text} {keepFinalNewline : Bool}

/-- A range that goes on to the end of its source. -/
def IsOpen : LineRange → Prop
  | whole | onward _ => True
  | single _ | closed _ _ => False

instance : DecidablePred IsOpen
  | whole | onward _ => isTrue trivial
  | single _ | closed _ _ => isFalse id

theorem isOpen_whole : IsOpen whole := trivial

theorem isOpen_onward (first : Nat) : IsOpen (onward first) := trivial

/-- How the ranges over one source fit together. -/
structure Seamless (text : Text) : Prop where
  identity : resolve whole text true = text
  /-- Two closed ranges side by side select what the range over both of them does. -/
  split : ∀ keepFinalNewline first middle last, 1 ≤ first → first ≤ middle → middle < last →
    last ≤ text.lines.length → resolve (closed first last) text keepFinalNewline =
      resolve (closed first middle) text keepFinalNewline ++
        '\n' :: resolve (closed (middle + 1) last) text keepFinalNewline
  single_eq : ∀ line keepFinalNewline,
    resolve (single line) text keepFinalNewline = resolve (closed line line) text keepFinalNewline
  /-- No source that fits a memory has a line behind the largest line number. -/
  onward_eq : text.byteLength < Fragment.maxLine → ∀ first,
    resolve (onward first) text true = resolve (closed first Fragment.maxLine) text true
  whole_eq : resolve whole text true = resolve (onward 1) text true
  /-- The final newline of the source is all that is lost by not keeping it. -/
  unkept : ∀ range, IsOpen range →
    resolve range text false = withoutFinalNewline (resolve range text true)
  /-- A range with an end has no say in it. -/
  ended : ∀ range, ¬ IsOpen range → resolve range text false = resolve range text true
  /-- A range that starts behind the last line or ends before its start selects no line. -/
  outside : ∀ range keepFinalNewline,
    text.lines.length < range.first ∨ (∃ first last, range = closed first last ∧ last < first) →
      range.select text keepFinalNewline = Selection.empty
  /-- No step of a selection is refused. -/
  unrefused : ∀ range keepFinalNewline,
    selectChecked range text keepFinalNewline = .ok (range.select text keepFinalNewline)

theorem lines_pos (text : Text) : 0 < text.lines.length :=
  List.length_pos_of_ne_nil (splitOn_ne_nil '\n' text)

theorem minus_eq {number subtracted : Nat} (enough : subtracted ≤ number) :
    minus number subtracted = .ok (number - subtracted) :=
  if_neg (Nat.not_lt.mpr enough)

theorem slice_eq {lines : List Text} {start stop : Nat} (forward : start ≤ stop)
    (inside : stop ≤ lines.length) : slice lines start stop = .ok ((lines.take stop).drop start) := by
  rw [slice, if_neg (Nat.not_lt.mpr forward), if_neg (Nat.not_lt.mpr inside)]

theorem lastChecked_eq (range : LineRange) {count : Nat} (positive : 0 < count)
    (endsBlank keepFinalNewline : Bool) :
    range.lastChecked count endsBlank keepFinalNewline =
      .ok (range.last count endsBlank keepFinalNewline) := by
  cases range with
  | single line | closed first last => rfl
  | whole | onward first =>
    unfold lastChecked last
    dsimp only
    by_cases dropped : (endsBlank && !keepFinalNewline) = true
    · rw [if_pos dropped, if_pos dropped, minus_eq positive]
    · rw [if_neg dropped, if_neg dropped]

theorem selectChecked_eq (range : LineRange) (text : Text) (keepFinalNewline : Bool) :
    selectChecked range text keepFinalNewline = .ok (range.select text keepFinalNewline) := by
  unfold selectChecked select
  dsimp only
  rw [lastChecked_eq range (lines_pos text)]
  dsimp only [bind, Except.bind]
  split
  · rfl
  · next forward =>
    rw [slice_eq (Nat.le_of_not_le forward) (Nat.min_le_right _ _)]
    rfl

/-- The selected lines stand between two positions. -/
theorem lines_select (range : LineRange) (text : Text) (keepFinalNewline : Bool) :
    (range.select text keepFinalNewline).lines =
      (text.lines.take (range.last text.lines.length (text.lines.getLast? == some [])
        keepFinalNewline)).drop (range.first - 1) := by
  unfold select
  dsimp only
  generalize range.last _ _ _ = last
  have same : text.lines.take (min last text.lines.length) = text.lines.take last := by
    rw [← List.take_take, List.take_length]
  split
  · next nothing =>
    rw [← same, List.drop_eq_nil_of_le]
    · rfl
    · exact Nat.le_trans (List.length_take_le _ _) nothing
  · rw [same]

theorem resolve_eq (range : LineRange) (text : Text) (keepFinalNewline : Bool) :
    resolve range text keepFinalNewline =
      unlines ((text.lines.take (range.last text.lines.length (text.lines.getLast? == some [])
        keepFinalNewline)).drop (range.first - 1)) :=
  congrArg unlines (lines_select range text keepFinalNewline)

/-- An open range stops at the end of its source, or before an empty line there. -/
theorem last_of_isOpen (isOpen : IsOpen range) (count : Nat) (endsBlank keepFinalNewline : Bool) :
    range.last count endsBlank keepFinalNewline =
      if endsBlank && !keepFinalNewline then count - 1 else count := by
  cases range with
  | whole | onward first => rfl
  | single line | closed first last => exact absurd isOpen id

/-- An open range that keeps the final newline selects all lines from its first one on. -/
theorem resolve_kept (isOpen : IsOpen range) :
    resolve range text true = unlines (text.lines.drop (range.first - 1)) := by
  have last : range.last text.lines.length (text.lines.getLast? == some []) true =
      text.lines.length := by
    simp [last_of_isOpen isOpen]
  rw [resolve_eq, last, List.take_length]

/-- What is selected up to a line and behind it is selected over it. -/
theorem drop_take_split {lines : List Text} {skipped last : Nat} (middle : Nat)
    (before : skipped ≤ middle) (behind : middle ≤ last) (inside : middle ≤ lines.length) :
    (lines.take last).drop skipped =
      (lines.take middle).drop skipped ++ (lines.take last).drop middle := by
  have cut : lines.take last = lines.take middle ++ (lines.take last).drop middle := by
    have halves := List.take_append_drop middle (lines.take last)
    rw [List.take_take, Nat.min_eq_left behind] at halves
    exact halves.symm
  conv => lhs; rw [cut]
  apply List.drop_append_of_le_length
  rw [List.length_take, Nat.min_eq_left inside]
  exact before

theorem resolve_closed_split {first middle last : Nat} (positive : 1 ≤ first)
    (before : first ≤ middle) (behind : middle < last) (inside : last ≤ text.lines.length) :
    resolve (closed first last) text keepFinalNewline =
      resolve (closed first middle) text keepFinalNewline ++
        '\n' :: resolve (closed (middle + 1) last) text keepFinalNewline := by
  rw [resolve_eq, resolve_eq, resolve_eq]
  dsimp only [LineRange.first, LineRange.last]
  rw [Nat.add_sub_cancel, drop_take_split middle (by omega) (by omega) (by omega)]
  apply joinWith_append
  · apply List.ne_nil_of_length_pos
    rw [List.length_drop, List.length_take]
    omega
  · apply List.ne_nil_of_length_pos
    rw [List.length_drop, List.length_take]
    omega

/-- Without the final newline an open range selects what it does with it, but for that. -/
theorem resolve_unkept (isOpen : IsOpen range) :
    resolve range text false = withoutFinalNewline (resolve range text true) := by
  rw [resolve_kept isOpen, resolve_eq]
  have last : range.last text.lines.length (text.lines.getLast? == some []) false =
      if text.lines.getLast? = some [] then text.lines.length - 1 else text.lines.length := by
    simp [last_of_isOpen isOpen]
  rw [last]
  generalize range.first - 1 = skipped
  -- the two selections differ at most in the empty line behind the final newline
  by_cases blank : text.lines.getLast? = some []
  · obtain ⟨front, split⟩ := List.getLast?_eq_some_iff.mp blank
    rw [if_pos blank, split, List.length_append, List.length_singleton, Nat.add_sub_cancel,
      List.take_left]
    by_cases inside : skipped ≤ front.length
    · rw [List.drop_append_of_le_length inside, withoutFinalNewline_unlines]
    · have behind : (front ++ [[]]).length ≤ skipped := by
        rw [List.length_append, List.length_singleton]
        omega
      rw [List.drop_eq_nil_of_le behind, List.drop_eq_nil_of_le (Nat.le_of_not_le inside)]
      rfl
  · rw [if_neg blank, List.take_length, withoutFinalNewline_unlines_self]
    · exact fun line member => not_mem_of_mem_splitOn (List.mem_of_mem_drop member)
    · rw [List.getLast?_drop]
      split
      · simp
      · exact blank

theorem select_outside (outside : text.lines.length < range.first ∨
    ∃ first last, range = closed first last ∧ last < first) :
    range.select text keepFinalNewline = Selection.empty := by
  unfold select
  apply if_pos
  rcases outside with behind | ⟨first, last, rfl, backwards⟩
  · exact Nat.le_trans (Nat.min_le_right _ _) (Nat.le_sub_one_of_lt behind)
  · exact Nat.le_trans (Nat.min_le_left _ _) (Nat.le_sub_one_of_lt backwards)

/-- Selecting lines neither loses nor doubles a line at the edge of a range, whatever the bounds
of the range and however the source ends. -/
theorem seamless (text : Text) : Seamless text where
  identity := by
    rw [resolve_kept isOpen_whole]
    exact joinWith_splitOn '\n' text
  split _ _ _ _ := resolve_closed_split
  single_eq _ _ := rfl
  onward_eq fits first := by
    have count : text.lines.length ≤ Fragment.maxLine :=
      Nat.le_trans (length_lines_le text) fits
    rw [resolve_kept (isOpen_onward first), resolve_eq]
    dsimp only [LineRange.first, LineRange.last]
    rw [List.take_of_length_le count]
  whole_eq := rfl
  unkept _ := resolve_unkept
  ended range ended := by
    cases range with
    | single line | closed first last => rfl
    | whole | onward first => exact absurd trivial ended
  outside _ _ := select_outside
  unrefused range := selectChecked_eq range text

/-- A source with a carriage return and an empty line, and bounds up to the largest. -/
theorem seamless_carriageReturn :
    let text : Text := "a\r\n\nb\n".toList
    resolve (closed 1 4) text false =
        resolve (closed 1 2) text false ++ '\n' :: resolve (closed 3 4) text false ∧
      resolve (onward 2) text true = resolve (closed 2 Fragment.maxLine) text true ∧
      resolve (onward 2) text false = withoutFinalNewline (resolve (onward 2) text true) ∧
      resolve (single 2) text false = resolve (single 2) text true ∧
      (closed Fragment.maxLine 1).select text true = Selection.empty := by
  intro text
  refine ⟨?_, ?_, ?_, ?_, ?_⟩
  · exact (seamless text).split false 1 2 4 (by decide) (by decide) (by decide) (by decide)
  · exact (seamless text).onward_eq (by decide +kernel) 2
  · exact (seamless text).unkept _ (isOpen_onward 2)
  · exact (seamless text).ended (single 2) id
  · exact (seamless text).outside _ true (Or.inl (by decide +kernel))

end LineRange
end Transclusion
