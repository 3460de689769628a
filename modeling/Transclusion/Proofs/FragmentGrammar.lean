import Mathlib.Data.List.TakeWhile
import Mathlib.Data.Nat.Digits.Defs
import Mathlib.Tactic.Ring
import Transclusion.Fragment

/-! The grammar of fragments. A fragment is a line range in one of four forms, or an anchor,
or an error; which of them it is and which numbers it holds is said here by its characters
alone, and the reading agrees with that on every text. -/
namespace Transclusion
open Text

namespace Fragment

/-- A run of decimal digits. -/
def IsNumeral (digits : Text) : Prop := digits ≠ [] ∧ ∀ digit ∈ digits, digit.isDigit = true

/-- The number a run of digits denotes, its last digit counting ones. -/
def value (digits : Text) : Nat :=
  Nat.ofDigits 10 (digits.reverse.map fun digit => digit.toNat - '0'.toNat)

/-- The line a number names: none past what a word holds. -/
def lastLine (digits : Text) : Nat := min (value digits) maxLine

/-- The line a number names at the start of a range, where lines are counted from 1. -/
def firstLine (digits : Text) : Nat := max 1 (lastLine digits)

/-- The forms of a line range, each with the range it denotes. -/
inductive Denotes : Text → LineRange → Prop where
  | single {first : Text} (numeral : IsNumeral first) :
    Denotes ('L' :: first) (.single (firstLine first))
  | onward {first : Text} (numeral : IsNumeral first) :
    Denotes ('L' :: (first ++ ['-'])) (.onward (firstLine first))
  | closed {first last : Text} (numeral : IsNumeral first) (lastNumeral : IsNumeral last)
      (positive : lastLine last ≠ 0) :
    Denotes ('L' :: (first ++ '-' :: 'L' :: last)) (.closed (firstLine first) (lastLine last))
  /-- An end of zero leaves the range open. -/
  | zeroEnd {first last : Text} (numeral : IsNumeral first) (lastNumeral : IsNumeral last)
      (zero : lastLine last = 0) :
    Denotes ('L' :: (first ++ '-' :: 'L' :: last)) (.onward (firstLine first))

/-- A fragment that has to be a line range, since it starts like one. -/
def StartsRange (fragment : Text) : Prop :=
  ∃ digit rest, fragment = 'L' :: digit :: rest ∧ digit.isDigit = true

/-- What a fragment is. -/
inductive Reads : Text → Except Error (Option LineRange) → Prop where
  | empty : Reads [] (.ok (some (.onward 1)))
  | missingStart (rest : Text) : Reads ('-' :: rest) (.error .missingStart)
  | anchor {fragment : Text} (nonempty : fragment ≠ []) (noDash : fragment.head? ≠ some '-')
      (other : ¬ StartsRange fragment) : Reads fragment (.ok none)
  | range {fragment : Text} {range : LineRange} (denoted : Denotes fragment range) :
    Reads fragment (.ok (some range))
  | malformed {fragment : Text} (starts : StartsRange fragment)
      (none : ∀ range, ¬ Denotes fragment range) : Reads fragment (.error .malformed)

variable {digits first last rest fragment : Text} {range : LineRange}

/-- Digits read from the front have the value of digits counted from the back. -/
theorem decimal_eq_value (digits : Text) : decimal digits = value digits := by
  have general : ∀ (digits : Text) (front : Nat),
      digits.foldl (fun value digit => 10 * value + (digit.toNat - '0'.toNat)) front =
        value digits + 10 ^ digits.length * front := by
    intro digits
    induction digits with
    | nil => simp [value]
    | cons digit digits ih =>
      intro front
      rw [List.foldl_cons, ih]
      simp only [value, List.reverse_cons, List.map_append, List.map_cons, List.map_nil,
        Nat.ofDigits_append, Nat.ofDigits_singleton, List.length_map, List.length_reverse,
        List.length_cons]
      ring
  have whole := general digits 0
  rw [Nat.mul_zero, Nat.add_zero] at whole
  exact whole

theorem lineNumber_eq (digits : Text) : lineNumber digits = lastLine digits := by
  rw [lineNumber, decimal_eq_value, lastLine]

theorem IsNumeral.head (numeral : IsNumeral digits) :
    ∃ digit more, digits = digit :: more ∧ digit.isDigit = true := by
  obtain ⟨digit, more, rfl⟩ := List.exists_cons_of_ne_nil numeral.1
  exact ⟨digit, more, rfl, numeral.2 digit (by simp)⟩

/-- A fragment that starts like a range is a number and what follows it. -/
theorem StartsRange.parts (starts : StartsRange fragment) :
    ∃ digits rest, fragment = 'L' :: (digits ++ rest) ∧ IsNumeral digits ∧
      rest.head?.all (!Char.isDigit ·) := by
  obtain ⟨digit, more, rfl, isDigit⟩ := starts
  refine ⟨(digit :: more).takeWhile Char.isDigit, (digit :: more).dropWhile Char.isDigit, ?_, ?_,
    ?_⟩
  · rw [List.takeWhile_append_dropWhile]
  · constructor
    · simp [isDigit]
    · exact fun c member => List.mem_takeWhile_imp member
  · have stop := List.head?_dropWhile_not Char.isDigit (digit :: more)
    cases rest : (digit :: more).dropWhile Char.isDigit with
    | nil => rfl
    | cons c rest =>
      rw [rest] at stop
      simpa using stop

/-- A number is read whole, and the range goes on behind it. -/
theorem read_numeral (numeral : IsNumeral digits) (stops : rest.head?.all (!Char.isDigit ·)) :
    read ('L' :: (digits ++ rest)) = (rangeFrom digits rest).map some := by
  have taken : (digits ++ rest).takeWhile Char.isDigit = digits := by
    rw [List.takeWhile_append_of_pos numeral.2]
    cases rest with
    | nil => simp
    | cons c rest =>
      have refused : c.isDigit = false := by simpa using stops
      simp [refused]
  have dropped : (digits ++ rest).dropWhile Char.isDigit = rest := by
    rw [List.dropWhile_append_of_pos numeral.2]
    cases rest with
    | nil => rfl
    | cons c rest =>
      have refused : c.isDigit = false := by simpa using stops
      simp [refused]
  obtain ⟨digit, more, rfl, -⟩ := numeral.head
  rw [read, taken, dropped]

section Ranges
variable (numeral : IsNumeral first)
include numeral

/-- What follows the first number makes one of the forms or is malformed. -/
theorem rangeFrom_cases (rest : Text) :
    (∃ range, rangeFrom first rest = .ok range ∧ Denotes ('L' :: (first ++ rest)) range) ∨
      rangeFrom first rest = .error .malformed := by
  have start : max (lineNumber first) 1 = firstLine first := by
    rw [lineNumber_eq, firstLine, Nat.max_comm]
  unfold rangeFrom
  rw [start]
  dsimp only
  split
  · refine Or.inl ⟨_, rfl, ?_⟩
    rw [List.append_nil]
    exact .single numeral
  · exact Or.inl ⟨_, rfl, .onward numeral⟩
  · next last =>
    split
    · exact Or.inr rfl
    · next digits =>
      have lastNumeral : IsNumeral last := by
        simpa [IsNumeral] using digits
      rw [lineNumber_eq]
      cases line : lastLine last with
      | zero => exact Or.inl ⟨_, rfl, .zeroEnd numeral lastNumeral line⟩
      | succ n =>
        refine Or.inl ⟨_, rfl, ?_⟩
        rw [← line]
        exact .closed numeral lastNumeral (by omega)
  · exact Or.inr rfl

end Ranges

/-- Every form is read as the range it denotes. -/
theorem read_of_denotes (denoted : Denotes fragment range) : read fragment = .ok (some range) := by
  have start : ∀ first, max (lineNumber first) 1 = firstLine first := by
    intro first
    rw [lineNumber_eq, firstLine, Nat.max_comm]
  have closedBy : ∀ {first last : Text}, IsNumeral first → IsNumeral last →
      read ('L' :: (first ++ '-' :: 'L' :: last)) =
        .ok (some (if lastLine last = 0 then .onward (firstLine first)
          else .closed (firstLine first) (lastLine last))) := by
    intro first last numeral lastNumeral
    have all : last.all Char.isDigit = true := List.all_eq_true.mpr lastNumeral.2
    rw [read_numeral numeral rfl, rangeFrom, start, lineNumber_eq]
    simp only [List.isEmpty_eq_false_iff.mpr lastNumeral.1, all, Bool.not_true, Bool.or_self,
      Bool.false_eq_true, ↓reduceIte]
    cases lastLine last with
    | zero => rfl
    | succ n => rfl
  cases denoted with
  | @single first numeral =>
    have whole : read ('L' :: (first ++ [])) = (rangeFrom first []).map some :=
      read_numeral numeral rfl
    rw [List.append_nil] at whole
    rw [whole, rangeFrom, start]
    rfl
  | onward numeral =>
    rw [read_numeral numeral rfl, rangeFrom, start]
    rfl
  | closed numeral lastNumeral positive => rw [closedBy numeral lastNumeral, if_neg positive]
  | zeroEnd numeral lastNumeral zero => rw [closedBy numeral lastNumeral, if_pos zero]

theorem read_of_not_startsRange (nonempty : fragment ≠ []) (noDash : fragment.head? ≠ some '-')
    (other : ¬ StartsRange fragment) : read fragment = .ok none := by
  obtain ⟨c, rest, rfl⟩ := List.exists_cons_of_ne_nil nonempty
  have dash : c ≠ '-' := by simpa using noDash
  by_cases marker : c = 'L'
  · subst marker
    have none : rest.takeWhile Char.isDigit = [] := by
      cases rest with
      | nil => rfl
      | cons digit more =>
        apply List.takeWhile_cons_of_neg
        exact fun isDigit => other ⟨digit, more, rfl, isDigit⟩
    rw [read, none]
  · rw [read.eq_def]
    split
    · next empty => exact absurd empty nonempty
    · next same => exact absurd (List.cons.inj same).1 dash
    · next same => exact absurd (List.cons.inj same).1 marker
    · rfl

/-- The reading gives what a fragment is, and nothing else. -/
theorem read_eq_iff {result : Except Error (Option LineRange)} :
    read fragment = result ↔ Reads fragment result := by
  constructor
  · rintro rfl
    by_cases empty : fragment = []
    · subst empty
      exact .empty
    by_cases dash : fragment.head? = some '-'
    · obtain ⟨rest, rfl⟩ := List.head?_eq_some_iff.mp dash
      exact .missingStart rest
    by_cases starts : StartsRange fragment
    · obtain ⟨digits, rest, rfl, numeral, stops⟩ := starts.parts
      have found := read_numeral numeral stops
      rcases rangeFrom_cases numeral rest with ⟨range, ranges, denoted⟩ | malformed
      · rw [found, ranges]
        exact .range denoted
      · rw [found, malformed]
        refine .malformed starts fun range denoted => ?_
        rw [read_of_denotes denoted, malformed] at found
        cases found
    · rw [read_of_not_startsRange empty dash starts]
      exact .anchor empty dash starts
  · intro reads
    cases reads with
    | empty => rfl
    | missingStart rest => rfl
    | anchor nonempty noDash other => exact read_of_not_startsRange nonempty noDash other
    | range denoted => exact read_of_denotes denoted
    | malformed starts none =>
      obtain ⟨digits, rest, rfl, numeral, stops⟩ := starts.parts
      rcases rangeFrom_cases numeral rest with ⟨range, -, denoted⟩ | malformed
      · exact absurd denoted (none range)
      · rw [read_numeral numeral stops, malformed]
        rfl

/-- A range that is read starts at a line, and one that is closed ends at a line. -/
theorem lines_of_read (found : read fragment = .ok (some range)) :
    1 ≤ range.first ∧ ∀ first last, range = .closed first last → 1 ≤ last := by
  have start : ∀ digits, 1 ≤ firstLine digits := fun digits => Nat.le_max_left 1 _
  cases read_eq_iff.mp found with
  | empty => exact ⟨Nat.le_refl 1, nofun⟩
  | range denoted =>
    cases denoted with
    | single _ => exact ⟨start _, nofun⟩
    | onward _ => exact ⟨start _, nofun⟩
    | zeroEnd _ _ _ => exact ⟨start _, nofun⟩
    | closed _ _ positive =>
      refine ⟨start _, ?_⟩
      rintro _ _ ⟨⟩
      exact Nat.one_le_iff_ne_zero.mpr positive

end Fragment
end Transclusion
