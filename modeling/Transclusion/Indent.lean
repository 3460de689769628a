import Transclusion.Text.WhiteSpace

/-! Indentation shared by the lines of a text. A tab counts as one character, as a
space does, and a line of white space alone takes no part in the minimum. -/
namespace Transclusion.Indent

/-- How many spaces and tabs a line starts with. -/
def width (line : Text) : Nat := line.countWhile isSpaceOrTab

/-- Whether the first character after the indentation exists and is not white
space. -/
def hasContent (line : Text) : Bool :=
  Text.startsWith (!isWhiteSpace ·) (line.dropWhile isSpaceOrTab)

/-- The least indentation of the lines that have content, 0 if there are none. -/
def common (text : Text) : Nat :=
  ((text.lines.filter hasContent).map width).min?.getD 0

/-- A line without its first `amount` characters, if all of them are indentation. -/
def outdent (amount : Nat) (line : Text) : Text :=
  if amount ≤ width line then line.drop amount else line

/-- The text without the indentation its lines share. -/
def strip (text : Text) : Text :=
  match common text with
  | 0 => text
  | amount => Text.unlines (text.lines.map (outdent amount))

end Transclusion.Indent
