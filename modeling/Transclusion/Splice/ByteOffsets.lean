import Transclusion.Splice
import Transclusion.Text.Slice

/-! The same replacements with the parts given by byte offsets, one after the other in a
text whose bytes move. A part that is no part of the text when its turn comes is a fault. -/
namespace Transclusion

/-- The byte offsets of a span of positions. -/
def Span.inBytes (text : Text) (span : Span) : Span :=
  ⟨text.byteOffset span.start, text.byteOffset span.stop⟩

namespace Edit

/-- The edit with its part given by byte offsets. -/
def inBytes (text : Text) (edit : Edit) : Edit := { edit with span := edit.span.inBytes text }

/-- The text with the part between two byte offsets replaced. -/
def replaceBytes (edit : Edit) (text : Text) : Except Fault Text := do
  let _ ← text.between edit.span.start edit.span.stop
  let front ← text.upTo edit.span.start
  let back ← text.onward edit.span.stop
  return front ++ edit.text ++ back

/-- The text with every part replaced, the one furthest back first. -/
def replaceAllBytes (edits : List Edit) (text : Text) : Except Fault Text :=
  (edits.mergeSort noLater).foldlM (fun text edit => edit.replaceBytes text) text

end Edit
end Transclusion
