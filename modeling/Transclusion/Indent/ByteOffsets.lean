import Transclusion.Indent
import Transclusion.Text.Slice

/-! The same stripping by bytes. The indentation of a line with content is what its length
loses with the indentation, that of any line is counted among its bytes, and what is kept of a
line is cut off behind so many bytes; a cut inside a character is a fault. -/
namespace Transclusion.Indent
open Text

/-- Whether a byte is a space or a tab. -/
def isSpaceOrTabByte (byte : UInt8) : Bool := byte == ' '.toUInt8 || byte == '\t'.toUInt8

/-- How many bytes of indentation a line has, if it has content. -/
def contentOffset? (line : Text) : Option Nat :=
  match line.dropWhile isSpaceOrTab with
  | [] => none
  | c :: rest => if isWhiteSpace c then none else some (line.byteLength - byteLength (c :: rest))

/-- The least indentation of the lines that have content, in bytes. -/
def commonBytes (text : Text) : Nat := (text.lines.filterMap contentOffset?).min?.getD 0

/-- A line without its first `amount` bytes, if all of them are indentation. -/
def outdentBytes (amount : Nat) (line : Text) : Except Fault Text :=
  if amount ≤ (line.bytes.takeWhile isSpaceOrTabByte).length then line.onward amount else .ok line

/-- The text without the bytes of indentation its lines share. -/
def stripBytes (text : Text) : Except Fault Text :=
  match commonBytes text with
  | 0 => .ok text
  | amount => do
    let lines ← text.lines.mapM (outdentBytes amount)
    return unlines lines

end Transclusion.Indent
