import Transclusion.Text

/-! Hexadecimal numbers, with letters in either case. -/
namespace Transclusion.Text

/-- The value of a hexadecimal digit. -/
def hexDigitValue? (c : Char) : Option Nat :=
  if c.isDigit then some (c.toNat - '0'.toNat)
  else if 'a' ≤ c && c ≤ 'f' then some (c.toNat - 'a'.toNat + 10)
  else if 'A' ≤ c && c ≤ 'F' then some (c.toNat - 'A'.toNat + 10)
  else none

theorem hexDigitValue?_lt {c : Char} {value : Nat} (h : hexDigitValue? c = some value) :
    value < 16 := by
  unfold hexDigitValue? at h
  split at h
  · next digit =>
    simp only [Char.isDigit, Bool.and_eq_true, decide_eq_true_eq, ge_iff_le,
      UInt32.le_iff_toNat_le] at digit
    simp only [Option.some.injEq, Char.reduceToNat] at h
    have : c.toNat ≤ 57 := digit.2
    omega
  · split at h
    · next lower =>
      simp only [Bool.and_eq_true, decide_eq_true_eq, Char.le_def, UInt32.le_iff_toNat_le] at lower
      simp only [Option.some.injEq, Char.reduceToNat] at h
      have : c.toNat ≤ 102 := lower.2
      omega
    · split at h
      · next upper =>
        simp only [Bool.and_eq_true, decide_eq_true_eq, Char.le_def,
          UInt32.le_iff_toNat_le] at upper
        simp only [Option.some.injEq, Char.reduceToNat] at h
        have : c.toNat ≤ 70 := upper.2
        omega
      · simp at h

/-- The digits of a text in a base up to sixteen, if it holds nothing else. -/
def digitsIn? (base : Nat) (text : Text) : Option (List Nat) :=
  text.mapM fun c => (hexDigitValue? c).filter (· < base)

/-- The number that digits stand for, the most significant first. -/
def ofDigits (base : Nat) (digits : List Nat) : Nat :=
  digits.foldl (fun total digit => base * total + digit) 0

/-- The number a text stands for in a base up to sixteen; no digit stands for zero. -/
def numberIn? (base : Nat) (text : Text) : Option Nat :=
  (digitsIn? base text).map (ofDigits base)

end Transclusion.Text
