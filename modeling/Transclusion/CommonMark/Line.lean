import Transclusion.Text

/-! The lines of a document, with the positions they start at. -/
namespace Transclusion.CommonMark

/-- A line without its ending, and where it starts in the document. -/
structure Line where
  start : Nat
  content : Text
deriving DecidableEq, Repr

namespace Line

/-- The position behind the content. -/
def stop (line : Line) : Nat := line.start + line.content.length

/-- The lines of a text that starts at position `start`, of whose first line the
characters `seen` are read, last first. -/
def splitFrom (start : Nat) (seen : Text) : Text → List Line
  | [] => if seen.isEmpty then [] else [⟨start, seen.reverse⟩]
  | '\r' :: '\n' :: rest => ⟨start, seen.reverse⟩ :: splitFrom (start + seen.length + 2) [] rest
  | c :: rest =>
    if c = '\n' || c = '\r' then
      ⟨start, seen.reverse⟩ :: splitFrom (start + seen.length + 1) [] rest
    else splitFrom start (c :: seen) rest

/-- The lines of a document; each ends with a newline, a carriage return or both. -/
def split (text : Text) : List Line := splitFrom 0 [] text

end Line

end Transclusion.CommonMark
