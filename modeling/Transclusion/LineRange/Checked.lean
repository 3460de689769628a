import Transclusion.LineRange

/-! The same selection in steps that can be refused. From the bounds of the range and the
number of lines on, no step makes a number larger, so numbers that fit a word go on fitting it.
What is left to go wrong is a subtraction below zero and a slice that is no part of the lines. -/
namespace Transclusion.LineRange

/-- Why a step is refused. -/
inductive Refusal where
  /-- More is subtracted than there is. -/
  | belowZero (number subtracted : Nat)
  /-- A slice ends before it starts. -/
  | backwards (start stop : Nat)
  /-- A slice ends behind the last line. -/
  | pastTheEnd (stop count : Nat)
deriving DecidableEq, Repr

/-- The difference of two numbers that is none below zero. -/
def minus (number subtracted : Nat) : Except Refusal Nat :=
  if number < subtracted then .error (.belowZero number subtracted) else .ok (number - subtracted)

/-- The lines from one position up to another. -/
def slice (lines : List Text) (start stop : Nat) : Except Refusal (List Text) :=
  if stop < start then .error (.backwards start stop)
  else if lines.length < stop then .error (.pastTheEnd stop lines.length)
  else .ok ((lines.take stop).drop start)

/-- The last line of the range in a source of `count` lines. -/
def lastChecked (range : LineRange) (count : Nat) (endsBlank keepFinalNewline : Bool) :
    Except Refusal Nat :=
  match range with
  | single line => .ok line
  | closed _ last => .ok last
  | whole | onward _ => if endsBlank && !keepFinalNewline then minus count 1 else .ok count

/-- The lines of `text` in the range. -/
def selectChecked (range : LineRange) (text : Text) (keepFinalNewline : Bool) :
    Except Refusal Selection := do
  let lines := text.lines
  let endsBlank := lines.getLast? == some []
  let last ← range.lastChecked lines.length endsBlank keepFinalNewline
  -- this difference stops at zero, so a first line of zero is read as one
  let skipped := range.first - 1
  let stop := min last lines.length
  if stop ≤ skipped then return Selection.empty
  else
    let selected ← slice lines skipped stop
    return { lines := selected, trailingBlank := endsBlank && stop == lines.length }

end Transclusion.LineRange
