import Transclusion.Text

/-! Replacing several parts of a text. -/
namespace Transclusion

/-- The characters of a text from position `start` up to, not including, `stop`. -/
structure Span where
  start : Nat
  stop : Nat
deriving DecidableEq, Repr

namespace Span

/-- The characters of `text` inside the span. -/
def slice (span : Span) (text : Text) : Text := (text.take span.stop).drop span.start

end Span

/-- A replacement of one part of a text. -/
structure Edit where
  span : Span
  text : Text
deriving DecidableEq, Repr

namespace Edit

/-- Whether `a` is applied no later than `b`: the one further back goes first, so
that no replacement moves a part still to be replaced. -/
def noLater (a b : Edit) : Bool :=
  b.span.start < a.span.start ||
    (b.span.start == a.span.start && b.span.stop ≤ a.span.stop)

/-- The text with one part replaced. -/
def apply (edit : Edit) (text : Text) : Text :=
  text.take edit.span.start ++ edit.text ++ text.drop edit.span.stop

/-- The text with every part replaced. -/
def applyAll (edits : List Edit) (text : Text) : Text :=
  (edits.mergeSort noLater).foldl (fun text edit => edit.apply text) text

end Edit
end Transclusion
