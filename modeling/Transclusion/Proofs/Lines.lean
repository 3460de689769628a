import Mathlib.Data.List.DropRight
import Transclusion.FencedBlock

/-! Cutting a text at its line starts. A line starts at the front of a text and behind
every newline; what stands before a line start never decides what the line is. -/
namespace Transclusion

namespace Text

/-- A line starts behind the text. -/
def EndsLine (text : Text) : Prop := text = [] ∨ text.getLast? = some '\n'

instance (text : Text) : Decidable (EndsLine text) :=
  inferInstanceAs (Decidable (text = [] ∨ text.getLast? = some '\n'))

theorem endsLine_nil : EndsLine [] := Or.inl rfl

theorem endsLine_concat (text : Text) : EndsLine (text ++ ['\n']) := Or.inr (by simp)

theorem EndsLine.append {first second : Text} (firstEnds : EndsLine first)
    (secondEnds : EndsLine second) : EndsLine (first ++ second) := by
  rcases secondEnds with rfl | last
  · simpa using firstEnds
  · exact Or.inr (by simp [List.getLast?_append, last])

/-- What precedes a nonempty end of a text does not matter for where lines start. -/
theorem EndsLine.of_append {first second : Text} (ends : EndsLine (first ++ second))
    (nonempty : second ≠ []) : EndsLine second := by
  rcases ends with none | last
  · exact absurd (List.append_eq_nil_iff.mp none).2 nonempty
  · refine Or.inr ?_
    rw [List.getLast?_append_of_ne_nil _ nonempty] at last
    exact last

/-- A part of a text can be exchanged for another that ends a line where the part did. -/
theorem EndsLine.exchange {before otherBefore part other behind : Text}
    (ends : EndsLine (before ++ part ++ behind)) (nonempty : part ≠ [])
    (same : part.getLast? = some '\n' → other.getLast? = some '\n') :
    EndsLine (otherBefore ++ other ++ behind) := by
  by_cases empty : behind = []
  · subst empty
    rw [List.append_nil] at ends ⊢
    rcases ends.of_append nonempty with none | last
    · exact absurd none nonempty
    · exact Or.inr (by rw [List.getLast?_append, same last, Option.some_or])
  · rcases ends.of_append empty with none | last
    · exact absurd none empty
    · exact Or.inr (by rw [List.getLast?_append_of_ne_nil _ empty, last])

theorem endsLine_flatten {pieces : List Text} (each : ∀ piece ∈ pieces, EndsLine piece) :
    EndsLine pieces.flatten := by
  induction pieces with
  | nil => exact endsLine_nil
  | cons piece pieces ih =>
    exact (each piece (by simp)).append (ih fun other member => each other (by simp [member]))

section Counting
variable {p : Char → Bool} {front back : Text}

/-- A run at the front is counted up to the first character that is not of it. -/
theorem countWhile_append (all : ∀ c ∈ front, p c = true) (stops : back.head?.all (!p ·)) :
    countWhile p (front ++ back) = front.length := by
  unfold countWhile
  rw [List.takeWhile_append_of_pos all]
  cases back with
  | nil => simp
  | cons c back =>
    have refused : p c = false := by simpa using stops
    simp [refused]

theorem countWhile_replicate {c : Char} {n : Nat} (taken : p c = true)
    (stops : back.head?.all (!p ·)) : countWhile p (List.replicate n c ++ back) = n := by
  have all : ∀ d ∈ List.replicate n c, p d = true := by
    intro d member
    rw [List.eq_of_mem_replicate member]
    exact taken
  simpa using countWhile_append all stops

/-- What follows the run counted at the front. -/
theorem drop_countWhile (p : Char → Bool) (text : Text) :
    text.drop (countWhile p text) = text.dropWhile p := by
  unfold countWhile
  conv => lhs; arg 2; rw [← List.takeWhile_append_dropWhile (p := p) (l := text)]
  exact List.drop_left' rfl

/-- A text is the run of one character at its front, as it is counted, and what follows it. -/
theorem exists_run (c : Char) (text : Text) :
    ∃ rest, text = List.replicate (countWhile (· = c) text) c ++ rest ∧
      text.drop (countWhile (· = c) text) = rest ∧ rest.head? ≠ some c := by
  refine ⟨text.dropWhile (· = c), ?_, drop_countWhile _ text, ?_⟩
  · have run : text.takeWhile (· = c) = List.replicate (countWhile (· = c) text) c :=
      List.eq_replicate_iff.mpr ⟨rfl, fun d member => by simpa using List.mem_takeWhile_imp member⟩
    rw [← run, List.takeWhile_append_dropWhile]
  · intro again
    have stop := List.head?_dropWhile_not (fun d : Char => decide (d = c)) text
    rw [again] at stop
    simp at stop

/-- No further than the count, every character is one of the run. -/
theorem of_mem_take {text : Text} {n : Nat} (few : n ≤ countWhile p text) {c : Char}
    (member : c ∈ text.take n) : p c = true := by
  have inRun : text.take n = (text.takeWhile p).take n := by
    conv => lhs; rw [← List.takeWhile_append_dropWhile (p := p) (l := text)]
    exact List.take_append_of_le_length few
  rw [inRun] at member
  exact List.mem_takeWhile_imp (List.mem_of_mem_take member)

end Counting

/-- The characters up to the first newline, which the line does not hold. -/
theorem takeWhile_line {line rest : Text} (free : '\n' ∉ line)
    (ended : rest = [] ∨ rest.head? = some '\n') :
    (line ++ rest).takeWhile (· ≠ '\n') = line := by
  have all : ∀ c ∈ line, decide (c ≠ '\n') = true := by
    intro c member
    simp only [ne_eq, decide_eq_true_eq]
    rintro rfl
    exact free member
  rw [List.takeWhile_append_of_pos all]
  rcases ended with rfl | head
  · simp
  · cases rest with
    | nil => simp
    | cons c rest => simp at head; simp [head]

section DropEnd
variable {α : Type} {p : α → Bool}

theorem dropEndWhile_eq_rdropWhile (p : α → Bool) (xs : List α) :
    dropEndWhile p xs = xs.rdropWhile p := rfl

theorem dropEndWhile_append_of_all {xs ys : List α} (all : ∀ y ∈ ys, p y = true) :
    dropEndWhile p (xs ++ ys) = dropEndWhile p xs := by
  unfold dropEndWhile
  rw [List.reverse_append, List.dropWhile_append_of_pos (by simpa using all)]

/-- Nothing is dropped from a list whose last member is kept. -/
theorem dropEndWhile_of_getLast? {xs : List α} {x : α} (last : xs.getLast? = some x)
    (kept : p x = false) : dropEndWhile p xs = xs := by
  obtain ⟨front, rfl⟩ := List.getLast?_eq_some_iff.mp last
  exact List.rdropWhile_concat_neg p front x (by simp [kept])

/-- What is dropped stands behind what is kept. -/
theorem exists_dropEndWhile (p : α → Bool) (xs : List α) :
    ∃ dropped, xs = dropEndWhile p xs ++ dropped ∧ ∀ x ∈ dropped, p x = true :=
  ⟨xs.rtakeWhile p, List.rdropWhile_append_rtakeWhile.symm,
    fun _ member => List.mem_rtakeWhile_imp member⟩

theorem dropEndWhile_last_not {xs : List α} {x : α} (last : (dropEndWhile p xs).getLast? = some x) :
    p x = false := by
  have nonempty : dropEndWhile p xs ≠ [] := by
    intro none
    simp [none] at last
  rw [List.getLast?_eq_some_getLast nonempty, Option.some.injEq] at last
  simpa [dropEndWhile_eq_rdropWhile, ← last] using List.rdropWhile_last_not p xs nonempty

end DropEnd

end Text

namespace FencedBlock
open Text

/-- The line start found from a position inside or at the end of a line. -/
theorem lineStart_append {before line : Text} (rest : Text) (ends : EndsLine before)
    (free : '\n' ∉ line) :
    lineStart (before ++ line ++ rest) (before.length + line.length) = before.length := by
  have upTo : (before ++ line ++ rest).take (before.length + line.length) = before ++ line :=
    List.take_left' (by simp)
  have lineBack : (line.reverse ++ before.reverse).takeWhile (· ≠ '\n') = line.reverse := by
    refine takeWhile_line (by simpa using free) ?_
    rcases ends with rfl | last
    · exact Or.inl rfl
    · exact Or.inr (by simpa [List.head?_reverse] using last)
  unfold lineStart
  rw [upTo, List.reverse_append, lineBack]
  simp

theorem lineStart_length {before line : Text} (ends : EndsLine before) (free : '\n' ∉ line) :
    lineStart (before ++ line) (before ++ line).length = before.length := by
  simpa using lineStart_append [] ends free

/-- Every position stands in a line: a line start before it, and no newline between. -/
theorem exists_line {text : Text} {position : Nat} (bound : position ≤ text.length) :
    ∃ before line rest, text = before ++ line ++ rest ∧ EndsLine before ∧ '\n' ∉ line ∧
      before.length + line.length = position := by
  let upTo := text.take position
  let line := (upTo.reverse.takeWhile (· ≠ '\n')).reverse
  let before := (upTo.reverse.dropWhile (· ≠ '\n')).reverse
  have whole : upTo = before ++ line := by
    rw [← List.reverse_append, List.takeWhile_append_dropWhile, List.reverse_reverse]
  refine ⟨before, line, text.drop position, ?_, ?_, ?_, ?_⟩
  · rw [← whole, List.take_append_drop]
  · have stop := List.head?_dropWhile_not (fun c : Char => decide (c ≠ '\n')) upTo.reverse
    unfold EndsLine
    simp only [before]
    cases rest : upTo.reverse.dropWhile (· ≠ '\n') with
    | nil => exact Or.inl rfl
    | cons c more =>
      rw [rest] at stop
      exact Or.inr (by simpa using stop)
  · intro member
    simpa using List.mem_takeWhile_imp (List.mem_reverse.mp member)
  · rw [← List.length_append, ← whole, List.length_take, Nat.min_eq_left bound]

/-- Every text starts with a line, which ends at a newline or with the text. -/
theorem exists_line_ahead (text : Text) :
    ∃ rest, text = text.takeWhile (· ≠ '\n') ++ rest ∧ '\n' ∉ text.takeWhile (· ≠ '\n') ∧
      (rest = [] ∨ rest.head? = some '\n') := by
  refine ⟨text.dropWhile (· ≠ '\n'), List.takeWhile_append_dropWhile.symm, ?_, ?_⟩
  · intro member
    simpa using List.mem_takeWhile_imp member
  · have stop := List.head?_dropWhile_not (fun c : Char => decide (c ≠ '\n')) text
    cases rest : text.dropWhile (· ≠ '\n') with
    | nil => exact Or.inl rfl
    | cons c more =>
      rw [rest] at stop
      exact Or.inr (by simpa using stop)

/-- Every text ends in a line, which may be empty. -/
theorem exists_line_at_end (text : Text) :
    ∃ before line, text = before ++ line ∧ EndsLine before ∧ '\n' ∉ line := by
  obtain ⟨before, line, rest, split, ends, free, length⟩ := exists_line (Nat.le_refl text.length)
  have none : rest = [] := by
    have total := congrArg List.length split
    simp only [List.length_append] at total
    exact List.eq_nil_of_length_eq_zero (by omega)
  subst none
  exact ⟨before, line, by simpa using split, ends, free⟩

end FencedBlock
end Transclusion
