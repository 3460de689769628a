import Transclusion.Indent
import Transclusion.LineRange

/-! A snippet: the part of a source that a code block shows. -/
namespace Transclusion.Snippet

/-- Selects the lines of the range and, when asked, strips the indentation they
share. -/
def extract (source : Text) (range : LineRange) (keepFinalNewline unindent : Bool) : Text :=
  let text := range.resolve source keepFinalNewline
  if unindent then Indent.strip text else text

end Transclusion.Snippet
