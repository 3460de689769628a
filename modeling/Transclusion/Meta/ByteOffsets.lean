import Transclusion.Meta
import Transclusion.Text.Slice

/-! The words of a block's metadata, taken off one after the other. Each search looks at the
bytes of what is left and at nothing in front of them; a look past their end is a fault, and so
is a cut inside a character. -/
namespace Transclusion.Meta
open Text

/-- Whether the byte at an offset is a space that follows no backslash. -/
def separates (bytes : List UInt8) (offset : Nat) : Except Fault Bool := do
  let byte ← byteAt bytes offset
  if byte != ' '.toUInt8 then return false
  else if offset = 0 then return true
  else
    let before ← byteAt bytes (offset - 1)
    return before != '\\'.toUInt8

/-- The offset of the first such space. -/
def separator? (bytes : List UInt8) : Except Fault (Option Nat) :=
  (List.range bytes.length).findM? (separates bytes)

/-- Takes one token off what is left, which is no text at all behind the last one. -/
def next? : (left : Option Text) → Except Fault (Option (Text × Option Text))
  | none => .ok none
  | some text => do
    match ← separator? text.bytes with
    | none => return some (text, none)
    | some offset =>
      let token ← text.upTo offset
      let rest ← text.onward (offset + 1)
      return some (token, some rest)

end Transclusion.Meta
