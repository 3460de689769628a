import Transclusion.Fence
import Transclusion.Text.Slice

/-! The runs of markers in a snippet, counted among the bytes of its lines. -/
namespace Transclusion.Fence
open Text

/-- The number of marker bytes in front of a line, after at most three spaces. A line behind
more spaces has no such run. -/
def runBytes? (fence : Fence) (line : Text) : Option Nat :=
  let trimmed : Text := line.dropWhile (· = ' ')
  if line.byteLength - trimmed.byteLength ≤ 3 then
    some (trimmed.bytes.takeWhile (· == fence.marker.toUInt8)).length
  else none

/-- The fence made longer than any run of its marker byte. -/
def widenBytes (fence : Fence) (lines : List Text) : Fence :=
  let longest := (lines.filterMap fence.runBytes?).max?.getD 0
  if fence.length ≤ longest then { fence with length := longest + 1 } else fence

end Transclusion.Fence
