import Transclusion.LineRange

/-! The fragment behind the last `#` of a directive: `L3`, `L3-`, `L3-L7` or
nothing. A fragment that does not begin like a line range is an anchor of its
source and stays part of the locator. -/
namespace Transclusion.Fragment

/-- Why a fragment that begins like a line range is none. -/
inductive Error where
  /-- It starts with a dash, so it has an end at most. -/
  | missingStart
  /-- It starts with a line number and does not go on as a range does. -/
  | malformed
deriving DecidableEq, Repr

/-- The largest line number; larger ones are read as this one. -/
def maxLine : Nat := 0xffffffffffffffff

/-- The line a run of digits names. -/
def lineNumber (digits : Text) : Nat := min (Text.decimal digits) maxLine

/-- The range from the line named by `digits` to what `rest` says. A start of zero
counts from the first line, an end of zero leaves the range open. -/
def rangeFrom (digits rest : Text) : Except Error LineRange :=
  let first := max (lineNumber digits) 1
  match rest with
  | [] => .ok (.single first)
  | ['-'] => .ok (.onward first)
  | '-' :: 'L' :: lastDigits =>
    if lastDigits.isEmpty || !lastDigits.all Char.isDigit then .error .malformed
    else
      match lineNumber lastDigits with
      | 0 => .ok (.onward first)
      | last => .ok (.closed first last)
  | _ => .error .malformed

/-- Reads a fragment; `none` means that it is not a line range at all. -/
def read : Text → Except Error (Option LineRange)
  | [] => .ok (some (.onward 1))
  | '-' :: _ => .error .missingStart
  | 'L' :: text =>
    match text.takeWhile Char.isDigit with
    | [] => .ok none
    | digits => (rangeFrom digits (text.dropWhile Char.isDigit)).map some
  | _ => .ok none

end Transclusion.Fragment
