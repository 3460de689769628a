import Transclusion.Text

/-! Line ranges and the lines they select. Lines are numbered from 1 and ended by a
newline only, so a carriage return is part of its line; bounds are never an
error, they select less. -/
namespace Transclusion

/-- Which lines of a source are meant. -/
inductive LineRange where
  /-- The whole source. -/
  | whole
  /-- One line. -/
  | single (line : Nat)
  /-- From a line to the end of the source. -/
  | onward (first : Nat)
  /-- From a line through another, both included. -/
  | closed (first last : Nat)
deriving DecidableEq, Repr

/-- The lines a range selected from a source. -/
structure Selection where
  lines : List Text
  /-- The last of them is the empty line after the final newline of the source. -/
  trailingBlank : Bool
deriving DecidableEq, Repr

namespace Selection

/-- No line. -/
def empty : Selection := ⟨[], false⟩

def isEmpty (selection : Selection) : Bool := selection.lines.isEmpty

/-- The selected lines joined by newlines. -/
def toText (selection : Selection) : Text := Text.unlines selection.lines

end Selection

namespace LineRange

/-- The first line of the range. -/
def first : LineRange → Nat
  | whole => 1
  | single line => line
  | onward first => first
  | closed first _ => first

/-- The last line of the range in a source of `count` lines. An open range stops
before the empty line that follows a final newline, unless that line is kept. -/
def last (range : LineRange) (count : Nat) (endsBlank keepFinalNewline : Bool) : Nat :=
  match range with
  | single line => line
  | closed _ last => last
  | whole | onward _ => if endsBlank && !keepFinalNewline then count - 1 else count

/-- The lines of `text` in the range. A range that starts after the last line or
ends before its own start selects none. -/
def select (range : LineRange) (text : Text) (keepFinalNewline : Bool) : Selection :=
  let lines := text.lines
  let endsBlank := lines.getLast? == some []
  let skipped := range.first - 1
  let stop := min (range.last lines.length endsBlank keepFinalNewline) lines.length
  if stop ≤ skipped then Selection.empty
  else
    { lines := (lines.take stop).drop skipped
      trailingBlank := endsBlank && stop == lines.length }

/-- The text of the selected lines. -/
def resolve (range : LineRange) (text : Text) (keepFinalNewline : Bool) : Text :=
  (range.select text keepFinalNewline).toText

end LineRange
end Transclusion
