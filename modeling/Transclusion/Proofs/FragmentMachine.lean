import Transclusion.Fragment.Machine
import Transclusion.Proofs.AsciiBytes
import Transclusion.Proofs.FragmentGrammar

/-! The machine that reads a fragment byte by byte. It stops at the first byte with which no
range goes on, be it a part of a longer character; what it has noted of the others are the
offsets of whole runs of digits, so both cuts at the end are there and give the numbers. -/
namespace Transclusion
open Text

namespace Fragment

section Words
variable {digits : Text}

private theorem push?_eq (value : Nat) (digit : Char) :
    push? value digit =
      if 10 * value + (digit.toNat - '0'.toNat) ≤ maxLine then
        some (10 * value + (digit.toNat - '0'.toNat))
      else none := by
  unfold push?
  dsimp only
  by_cases fits : 10 * value + (digit.toNat - '0'.toNat) ≤ maxLine
  · rw [if_neg (by omega), if_neg (by omega), if_pos fits]
  · rw [if_neg fits]
    split
    · rfl
    · exact if_pos (by omega)

/-- More digits never make a number smaller. -/
private theorem le_foldl_digits (digits : Text) (front : Nat) :
    front ≤ digits.foldl (fun value digit => 10 * value + (digit.toNat - '0'.toNat)) front := by
  induction digits generalizing front with
  | nil => exact Nat.le_refl _
  | cons digit digits ih =>
    have grown : front ≤ 10 * front + (digit.toNat - '0'.toNat) := by omega
    exact Nat.le_trans grown (ih _)

/-- A word is read exactly where the number fits one: once it is too large, it stays so. -/
theorem word?_eq (digits : Text) :
    word? digits = if decimal digits ≤ maxLine then some (decimal digits) else none := by
  have general : ∀ front ≤ maxLine, digits.foldlM push? front =
      if digits.foldl (fun value digit => 10 * value + (digit.toNat - '0'.toNat)) front ≤ maxLine
      then some (digits.foldl (fun value digit => 10 * value + (digit.toNat - '0'.toNat)) front)
      else none := by
    induction digits with
    | nil =>
      intro front fits
      exact (if_pos fits).symm
    | cons digit digits ih =>
      intro front fits
      rw [List.foldlM_cons, push?_eq, List.foldl_cons]
      by_cases next : 10 * front + (digit.toNat - '0'.toNat) ≤ maxLine
      · rw [if_pos next]
        exact ih _ next
      · have grown := le_foldl_digits digits (10 * front + (digit.toNat - '0'.toNat))
        rw [if_neg next, if_neg (by omega)]
        rfl
  exact general 0 (Nat.zero_le _)

/-- The machine's numbers are those of the reading. -/
theorem wordLine_eq (digits : Text) : wordLine digits = lineNumber digits := by
  rw [wordLine, word?_eq, lineNumber]
  by_cases fits : decimal digits ≤ maxLine
  · rw [if_pos fits, Nat.min_eq_left fits]
    rfl
  · rw [if_neg fits, Nat.min_eq_right (by omega)]
    rfl

end Words

namespace Machine

theorem tells_marker : Tells (· == 'L'.toUInt8) (· = 'L') := tells_char (by decide)

theorem tells_dash : Tells (· == '-'.toUInt8) (· = '-') := tells_char (by decide)

section Steps
variable {machine next : Machine} {offset : Nat} {c : Char}

/-- Behind an ASCII character the machine goes on with the next one. -/
theorem run_taken (ascii : c.toNat < 128)
    (taken : ∀ byte, Begins byte c → machine.step offset byte = some next) (rest : Text) :
    machine.run offset (bytes (c :: rest)) = next.run (offset + 1) (bytes rest) := by
  obtain ⟨byte, more, whole, begins, follows⟩ := exists_bytes_cons c rest
  rw [whole, run, taken byte begins, follows ascii]
  rfl

/-- The first byte of a character is enough to stop the machine. -/
theorem run_refused (refused : ∀ byte, Begins byte c → machine.step offset byte = none)
    (rest : Text) : machine.run offset (bytes (c :: rest)) = none := by
  obtain ⟨byte, more, whole, begins, -⟩ := exists_bytes_cons c rest
  rw [whole, run, refused byte begins]
  rfl

end Steps

/-- Digits only move the end of what is noted. -/
theorem run_digits (machine : Nat → Machine) (steps : ∀ offset byte, isDigitByte byte = true →
      (machine offset).step offset byte = some (machine (offset + 1)))
    {digits : Text} (all : ∀ digit ∈ digits, digit.isDigit = true) (offset : Nat) (rest : Text) :
    (machine offset).run offset (bytes (digits ++ rest)) =
      (machine (offset + digits.length)).run (offset + digits.length) (bytes rest) := by
  induction digits generalizing offset with
  | nil => rfl
  | cons digit digits ih =>
    have isDigit := all digit (by simp)
    have taken : ∀ byte, Begins byte digit →
        (machine offset).step offset byte = some (machine (offset + 1)) := by
      intro byte begins
      exact steps offset byte (by rw [begins tells_digit, isDigit])
    have later := ih (fun other member => all other (by simp [member])) (offset + 1)
    have total : offset + (digit :: digits).length = offset + 1 + digits.length := by
      rw [List.length_cons]
      omega
    rw [List.cons_append, run_taken (tells_digit.lt isDigit) taken, later, total]

variable {first last rest : Text}

/-- A run of digits behind ASCII characters is cut out where it was noted. -/
theorem between_digits (front : Text) {digits : Text} (ascii : front.byteLength = front.length)
    (numeral : IsNumeral digits) (rest : Text) :
    between (front ++ (digits ++ rest)) front.length (front.length + digits.length) =
      .ok digits := by
  have cut := between_append front digits rest
  rw [byteLength_append, tells_digit.byteLength_eq numeral.2, ascii] at cut
  exact cut

/-- Behind the first number the machine has noted its digits. -/
theorem run_initial (numeral : IsNumeral first) (rest : Text) :
    initial.run 0 (bytes ('L' :: (first ++ rest))) =
      run ⟨.fromDigits, ⟨1, 1 + first.length⟩, ⟨0, 0⟩⟩ (1 + first.length) (bytes rest) := by
  obtain ⟨digit, more, rfl, isDigit⟩ := numeral.head
  have marker : ∀ byte, Begins byte 'L' →
      initial.step 0 byte = some ⟨.fromMarker, ⟨0, 0⟩, ⟨0, 0⟩⟩ := by
    intro byte begins
    exact if_pos (begins tells_marker)
  have head : ∀ byte, Begins byte digit → step ⟨.fromMarker, ⟨0, 0⟩, ⟨0, 0⟩⟩ 1 byte =
      some ⟨.fromDigits, ⟨1, 2⟩, ⟨0, 0⟩⟩ := by
    intro byte begins
    exact if_pos (by rw [begins tells_digit, isDigit])
  have later := run_digits (fun stop => ⟨.fromDigits, ⟨1, stop⟩, ⟨0, 0⟩⟩)
    (fun offset byte isDigit => if_pos isDigit)
    (fun other member => numeral.2 other (List.mem_cons_of_mem digit member)) 2 rest
  have total : 1 + (digit :: more).length = 2 + more.length := by
    rw [List.length_cons]
    omega
  rw [run_taken (by decide) marker, List.cons_append, run_taken (tells_digit.lt isDigit) head,
    total]
  exact later

/-- The machine behind the dash and the second marker, with the first number noted. -/
private def behindMarker (first : Text) : Machine := ⟨.toMarker, ⟨1, 1 + first.length⟩, ⟨0, 0⟩⟩

/-- A second number is noted like the first. -/
theorem run_last (first : Text) (lastNumeral : IsNumeral last) (offset : Nat) (rest : Text) :
    (behindMarker first).run offset (bytes (last ++ rest)) =
      run ⟨.toDigits, ⟨1, 1 + first.length⟩, ⟨offset, offset + last.length⟩⟩
        (offset + last.length) (bytes rest) := by
  obtain ⟨digit, more, rfl, isDigit⟩ := lastNumeral.head
  have head : ∀ byte, Begins byte digit → (behindMarker first).step offset byte =
      some ⟨.toDigits, ⟨1, 1 + first.length⟩, ⟨offset, offset + 1⟩⟩ := by
    intro byte begins
    exact if_pos (by rw [begins tells_digit, isDigit])
  have later := run_digits (fun stop => ⟨.toDigits, ⟨1, 1 + first.length⟩, ⟨offset, stop⟩⟩)
    (fun offset byte isDigit => if_pos isDigit)
    (fun other member => lastNumeral.2 other (List.mem_cons_of_mem digit member)) (offset + 1) rest
  have total : offset + (digit :: more).length = offset + 1 + more.length := by
    rw [List.length_cons]
    omega
  rw [List.cons_append, run_taken (tells_digit.lt isDigit) head, total]
  exact later

/-- What is no number behind the second marker stops the machine, or leaves it there. -/
theorem run_not_numeral (other : ¬ IsNumeral last) (offset : Nat) :
    (behindMarker first).run offset (bytes last) = none ∨
      (behindMarker first).run offset (bytes last) = some (behindMarker first) := by
  by_cases empty : last = []
  · subst empty
    exact Or.inr rfl
  apply Or.inl
  have split := List.takeWhile_append_dropWhile (p := Char.isDigit) (l := last)
  have digits : ∀ digit ∈ last.takeWhile Char.isDigit, digit.isDigit = true :=
    fun digit member => List.mem_takeWhile_imp member
  have stop := List.head?_dropWhile_not Char.isDigit last
  cases behind : last.dropWhile Char.isDigit with
  | nil =>
    rw [behind, List.append_nil] at split
    exact absurd ⟨empty, split ▸ digits⟩ other
  | cons c rest =>
    rw [behind] at stop split
    have noDigit : ∀ byte, Begins byte c → isDigitByte byte = false := by
      intro byte begins
      rw [begins tells_digit]
      simpa using stop
    by_cases none : last.takeWhile Char.isDigit = []
    · rw [none, List.nil_append] at split
      rw [← split]
      apply run_refused
      exact fun byte begins => if_neg (by simp [noDigit byte begins])
    · rw [← split, run_last first ⟨none, digits⟩]
      apply run_refused
      exact fun byte begins => if_neg (by simp [noDigit byte begins])

/-- Behind the second marker the machine finds a number and its end, or nothing. -/
theorem conclude_behindMarker (numeral : IsNumeral first) :
    conclude ('L' :: (first ++ '-' :: 'L' :: last))
        ((behindMarker first).run (1 + first.length + 1 + 1) (bytes last)) =
      .ok (rangeFrom first ('-' :: 'L' :: last)) := by
  have firstCut : between ('L' :: (first ++ '-' :: 'L' :: last)) 1 (1 + first.length) =
      .ok first := between_digits ['L'] rfl numeral ('-' :: 'L' :: last)
  by_cases lastNumeral : IsNumeral last
  · have front : byteLength ('L' :: (first ++ ['-', 'L'])) =
        List.length ('L' :: (first ++ ['-', 'L'])) := by
      have size : byteLength ('L' :: (first ++ ['-', 'L'])) = 1 + byteLength (first ++ ['-', 'L']) :=
        rfl
      rw [size, byteLength_append, tells_digit.byteLength_eq numeral.2, List.length_cons,
        List.length_append]
      have two : byteLength ['-', 'L'] = List.length ['-', 'L'] := rfl
      omega
    have lastCut := between_digits _ front lastNumeral []
    have shape : 'L' :: (first ++ ['-', 'L']) ++ (last ++ []) =
        'L' :: (first ++ '-' :: 'L' :: last) := by simp
    have start : List.length ('L' :: (first ++ ['-', 'L'])) = 1 + first.length + 1 + 1 := by
      simp only [List.length_cons, List.length_append, List.length_nil]
      omega
    rw [shape, start] at lastCut
    have ran := run_last first lastNumeral (1 + first.length + 1 + 1) []
    rw [List.append_nil] at ran
    have all : last.all Char.isDigit = true := List.all_eq_true.mpr lastNumeral.2
    rw [ran, rangeFrom]
    simp only [conclude, run, range, firstCut, lastCut, wordLine_eq, bytes, bind, Except.bind,
      List.flatMap_nil, List.isEmpty_eq_false_iff.mpr lastNumeral.1, all, Bool.not_true,
      Bool.or_self, Bool.false_eq_true, ↓reduceIte]
    cases lineNumber last with
    | zero => rfl
    | succ n => rfl
  · have malformed : rangeFrom first ('-' :: 'L' :: last) = .error .malformed := by
      unfold rangeFrom
      apply if_pos
      by_contra valid
      exact lastNumeral (by simpa [IsNumeral] using valid)
    rw [malformed]
    rcases run_not_numeral lastNumeral (1 + first.length + 1 + 1) with stopped | stayed
    · rw [stopped]
      rfl
    · rw [stayed]
      rfl

private theorem rangeFrom_of_ne_dash {c : Char} (other : c ≠ '-') (first rest : Text) :
    rangeFrom first (c :: rest) = .error .malformed := by
  unfold rangeFrom
  dsimp only
  split
  · next none => cases none
  · next same => exact absurd (List.cons.inj same).1 other
  · next same => exact absurd (List.cons.inj same).1 other
  · rfl

private theorem rangeFrom_of_ne_marker {c : Char} (other : c ≠ 'L') (first rest : Text) :
    rangeFrom first ('-' :: c :: rest) = .error .malformed := by
  unfold rangeFrom
  dsimp only
  split
  · next none => cases none
  · next same => cases same
  · next same => exact absurd (List.cons.inj (List.cons.inj same).2).1 other
  · rfl

/-- Behind the first number the machine finds what the reading does. -/
theorem conclude_run (numeral : IsNumeral first) (stops : rest.head?.all (!Char.isDigit ·)) :
    conclude ('L' :: (first ++ rest))
        (run ⟨.fromDigits, ⟨1, 1 + first.length⟩, ⟨0, 0⟩⟩ (1 + first.length) (bytes rest)) =
      .ok (rangeFrom first rest) := by
  have firstCut : between ('L' :: (first ++ rest)) 1 (1 + first.length) = .ok first :=
    between_digits ['L'] rfl numeral rest
  cases rest with
  | nil =>
    simp only [conclude, run, range, firstCut, wordLine_eq, bytes, List.flatMap_nil]
    rfl
  | cons c rest =>
    have noDigit : ∀ byte, Begins byte c → isDigitByte byte = false := by
      intro byte begins
      rw [begins tells_digit]
      simpa using stops
    by_cases dash : c = '-'
    · subst dash
      have atDash : ∀ byte, Begins byte '-' →
          step ⟨.fromDigits, ⟨1, 1 + first.length⟩, ⟨0, 0⟩⟩ (1 + first.length) byte =
            some ⟨.dash, ⟨1, 1 + first.length⟩, ⟨0, 0⟩⟩ := by
        intro byte begins
        have isDash : (byte == '-'.toUInt8) = true := begins tells_dash
        simp only [step, noDigit byte begins, isDash, Bool.false_eq_true, ↓reduceIte]
      rw [run_taken (by decide) atDash]
      cases rest with
      | nil =>
        simp only [conclude, run, range, firstCut, wordLine_eq, bytes, List.flatMap_nil]
        rfl
      | cons d last =>
        by_cases marker : d = 'L'
        · subst marker
          have atMarker : ∀ byte, Begins byte 'L' →
              step ⟨.dash, ⟨1, 1 + first.length⟩, ⟨0, 0⟩⟩ (1 + first.length + 1) byte =
                some (behindMarker first) := by
            intro byte begins
            exact if_pos (begins tells_marker)
          rw [run_taken (by decide) atMarker]
          exact conclude_behindMarker numeral
        · rw [run_refused]
          · rw [rangeFrom_of_ne_marker marker]
            rfl
          · intro byte begins
            have noMarker : (byte == 'L'.toUInt8) = false := by
              rw [begins tells_marker]
              simpa using marker
            simp only [step, noMarker, Bool.false_eq_true, ↓reduceIte]
    · rw [run_refused]
      · rw [rangeFrom_of_ne_dash dash]
        rfl
      · intro byte begins
        have noDash : (byte == '-'.toUInt8) = false := by
          rw [begins tells_dash]
          simpa using dash
        simp only [step, noDigit byte begins, noDash, Bool.false_eq_true, ↓reduceIte]

end Machine

/-- The machine reads every fragment as the reading does. -/
theorem scan_eq (fragment : Text) : scan fragment = .ok (read fragment) := by
  cases fragment with
  | nil => rfl
  | cons c rest =>
    obtain ⟨byte, more, whole, begins, follows⟩ := exists_bytes_cons c rest
    unfold scan
    rw [whole]
    dsimp only
    by_cases dash : c = '-'
    · subst dash
      have isDash : (byte == '-'.toUInt8) = true := begins Machine.tells_dash
      rw [if_pos isDash]
      rfl
    have noDash : (byte == '-'.toUInt8) = false := by
      rw [begins Machine.tells_dash]
      simpa using dash
    by_cases starts : StartsRange (c :: rest)
    · obtain ⟨first, behind, same, numeral, stops⟩ := starts.parts
      obtain ⟨rfl, rfl⟩ := List.cons.inj same
      obtain ⟨digit, others, rfl, isDigit⟩ := numeral.head
      have marker : (byte == 'L'.toUInt8) = true := begins Machine.tells_marker
      have digitNext : more.head?.any isDigitByte = true := by
        rw [follows (by decide), tells_digit.any_head?]
        simpa using isDigit
      rw [← whole, Machine.run_initial numeral, Machine.conclude_run numeral stops,
        read_numeral numeral stops]
      simp only [noDash, marker, digitNext, Bool.false_eq_true, ↓reduceIte, Bool.and_self]
      rfl
    · have noRange : (byte == 'L'.toUInt8 && more.head?.any isDigitByte) = false := by
        by_contra found
        rw [Bool.not_eq_false, Bool.and_eq_true, begins Machine.tells_marker] at found
        obtain ⟨marker, digitNext⟩ := found
        obtain rfl : c = 'L' := by simpa using marker
        rw [follows (by decide), tells_digit.any_head?] at digitNext
        obtain ⟨digit, next, isDigit⟩ := (Option.any_eq_true _ _).mp digitNext
        obtain ⟨others, rfl⟩ := List.head?_eq_some_iff.mp next
        exact starts ⟨digit, others, rfl, isDigit⟩
      rw [read_of_not_startsRange (by simp) (by simpa using dash) starts]
      simp only [noDash, noRange, Bool.false_eq_true, ↓reduceIte]
      rfl

/-- A fragment is read as exactly what its characters make it: a range with the numbers its
digits denote, an anchor or an error. The machine cuts every fragment between characters
and reads the same, and every range starts, and ends, at a line. -/
theorem read_exact (fragment : Text) :
    (∀ result, read fragment = result ↔ Reads fragment result) ∧
      scan fragment = .ok (read fragment) ∧
      ∀ range, read fragment = .ok (some range) →
        1 ≤ range.first ∧ ∀ first last, range = .closed first last → 1 ≤ last :=
  ⟨fun _ => read_eq_iff, scan_eq fragment, fun _ found => lines_of_read found⟩

/-- A number too large for a word is cut down to the largest, and a long character behind
the digits is none of them. -/
example : read "L007-L99999999999999999999".toList = .ok (some (.closed 7 maxLine)) ∧
    scan "L1é".toList = .ok (.error .malformed) := by
  decide +kernel

end Fragment
end Transclusion
