import Transclusion.Text

/-! Code fences: the run of markers that opens or closes a fenced block. -/
namespace Transclusion

/-- A run of `length` markers. -/
structure Fence where
  marker : Char
  length : Nat
deriving DecidableEq, Repr

namespace Fence

def render (fence : Fence) : Text := List.replicate fence.length fence.marker

/-- The length of the run of markers at the front of a line, after at most three
spaces. -/
def runIn (fence : Fence) (line : Text) : Nat :=
  if line.leadingSpaces ≤ 3 then
    Text.countWhile (· = fence.marker) (line.drop line.leadingSpaces)
  else 0

/-- The fence made longer than any run that could close it inside `lines`. -/
def widenFor (fence : Fence) (lines : List Text) : Fence :=
  let longest := (lines.map fence.runIn).foldl max 0
  if fence.length ≤ longest then { fence with length := longest + 1 } else fence

end Fence
end Transclusion
