import Transclusion.Fragment
import Transclusion.Splice
import Transclusion.Text.Slice

/-! The same reading one byte at a time. The machine only notes where the digits of the two
line numbers stand; they are cut out of the fragment when all bytes were taken, and each
number is read in a machine word. -/
namespace Transclusion.Fragment
open Text (isDigitByte)

/-- Where the machine stands behind a byte. -/
inductive State where
  | start
  /-- Behind the `L` of the first number. -/
  | fromMarker
  | fromDigits
  /-- Behind the dash. -/
  | dash
  /-- Behind the `L` of the second number. -/
  | toMarker
  | toDigits
deriving DecidableEq, Repr

/-- The state of the machine and the byte offsets of the digits it has seen. -/
structure Machine where
  state : State
  first : Span
  last : Span
deriving DecidableEq, Repr

namespace Machine

def initial : Machine := ⟨.start, ⟨0, 0⟩, ⟨0, 0⟩⟩

/-- The machine behind the byte at an offset, if a range may go on with it. -/
def step (machine : Machine) (offset : Nat) (byte : UInt8) : Option Machine :=
  match machine.state with
  | .start => if byte == 'L'.toUInt8 then some { machine with state := .fromMarker } else none
  | .fromMarker =>
    if isDigitByte byte then
      some { machine with state := .fromDigits, first := ⟨offset, offset + 1⟩ }
    else none
  | .fromDigits =>
    if isDigitByte byte then
      some { machine with first := { machine.first with stop := offset + 1 } }
    else if byte == '-'.toUInt8 then some { machine with state := .dash }
    else none
  | .dash => if byte == 'L'.toUInt8 then some { machine with state := .toMarker } else none
  | .toMarker =>
    if isDigitByte byte then
      some { machine with state := .toDigits, last := ⟨offset, offset + 1⟩ }
    else none
  | .toDigits =>
    if isDigitByte byte then
      some { machine with last := { machine.last with stop := offset + 1 } }
    else none

/-- The machine behind all of the bytes, which start at an offset. -/
def run (machine : Machine) (offset : Nat) : List UInt8 → Option Machine
  | [] => some machine
  | byte :: bytes => (machine.step offset byte).bind fun next => next.run (offset + 1) bytes

end Machine

/-- A number with one more digit, if it still fits a word. -/
def push? (value : Nat) (digit : Char) : Option Nat :=
  let tens := 10 * value
  if maxLine < tens then none
  else
    let next := tens + (digit.toNat - '0'.toNat)
    if maxLine < next then none else some next

/-- The word a run of digits stands for. -/
def word? (digits : Text) : Option Nat := digits.foldlM push? 0

/-- The line a run of digits names; what does not fit a word is a line past any source. -/
def wordLine (digits : Text) : Nat := (word? digits).getD maxLine

/-- The range a machine has found in its fragment. -/
def Machine.range (machine : Machine) (fragment : Text) :
    Except Fault (Except Error LineRange) := do
  match machine.state with
  | .fromDigits =>
    let digits ← fragment.between machine.first.start machine.first.stop
    return .ok (.single (max (wordLine digits) 1))
  | .dash =>
    let digits ← fragment.between machine.first.start machine.first.stop
    return .ok (.onward (max (wordLine digits) 1))
  | .toDigits =>
    let digits ← fragment.between machine.first.start machine.first.stop
    let first := max (wordLine digits) 1
    let lastDigits ← fragment.between machine.last.start machine.last.stop
    match wordLine lastDigits with
    | 0 => return .ok (.onward first)
    | last => return .ok (.closed first last)
  | .start | .fromMarker | .toMarker => return .error .malformed

/-- What the machine has found in its fragment when it is through or has stopped. -/
def Machine.conclude (fragment : Text) : Option Machine → Except Fault (Except Error LineRange)
  | none => return .error .malformed
  | some machine => machine.range fragment

/-- Reads a fragment byte by byte; a fault is a cut that the fragment does not have. -/
def scan (fragment : Text) : Except Fault (Except Error (Option LineRange)) := do
  match Text.bytes fragment with
  | [] => return .ok (some (.onward 1))
  | head :: bytes =>
    if head == '-'.toUInt8 then return .error .missingStart
    else if head == 'L'.toUInt8 && bytes.head?.any isDigitByte then
      let result ← Machine.conclude fragment (Machine.initial.run 0 (head :: bytes))
      return result.map some
    else return .ok none

end Transclusion.Fragment
