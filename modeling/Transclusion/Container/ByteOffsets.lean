import Transclusion.Container
import Transclusion.Text.Slice

/-! The same walks over the bytes of a line. Both go on at an offset that the spaces and
markers before it have moved, and every look behind the end of the bytes is a fault. -/
namespace Transclusion
open Text

namespace Container

/-- The number of spaces behind an offset. -/
def spacesFrom (bytes : List UInt8) (offset : Nat) : Except Fault Nat := do
  let behind ← bytesFrom bytes offset
  return (behind.takeWhile (· == ' '.toUInt8)).length

/-- The offset behind a quote marker and its optional space. -/
def behindQuote (bytes : List UInt8) (marker : Nat) : Nat :=
  if bytes[marker + 1]?.any (· == ' '.toUInt8) then marker + 2 else marker + 1

/-- The length of the list marker behind an offset. -/
def markerLengthFrom? (bytes : List UInt8) (offset : Nat) : Except Fault (Option Nat) := do
  if bytes[offset]?.any fun byte => byte == '-'.toUInt8 || byte == '*'.toUInt8 ||
      byte == '+'.toUInt8 then
    return some 1
  else if bytes[offset]?.any isDigitByte then
    let behind ← bytesFrom bytes offset
    let digits := (behind.takeWhile isDigitByte).length
    let delimited := bytes[offset + digits]?.any fun byte =>
      byte == '.'.toUInt8 || byte == ')'.toUInt8
    return if delimited && digits ≤ 9 then some (digits + 1) else none
  else return none

/-- The first container behind an offset and the offset behind that. -/
def firstFrom? (bytes : List UInt8) (offset : Nat) : Except Fault (Option (Container × Nat)) := do
  let spaces ← spacesFrom bytes offset
  let marker := offset + spaces
  if bytes[marker]?.any (· == '>'.toUInt8) then
    return some (quote, behindQuote bytes marker)
  else
    match ← markerLengthFrom? bytes marker with
    | none => return none
    | some length =>
      let gap ← spacesFrom bytes (marker + length)
      return if gap = 0 then none
        else some (item (spaces + length + gap), marker + length + gap)

theorem lt_of_getElem?_any {bytes : List UInt8} {offset : Nat} {q : UInt8 → Bool}
    (found : bytes[offset]?.any q = true) : offset < bytes.length := by
  obtain ⟨byte, there, -⟩ := (Option.any_eq_true _ _).mp found
  exact (List.getElem?_eq_some_iff.mp there).1

/-- Spaces are found inside the bytes only. -/
theorem spacesFrom_le {bytes : List UInt8} {offset spaces : Nat}
    (found : spacesFrom bytes offset = .ok spaces) : offset + spaces ≤ bytes.length := by
  unfold spacesFrom bytesFrom at found
  split at found
  · cases found
  · next inside =>
    cases found
    have shorter := (List.takeWhile_sublist (· == ' '.toUInt8) (l := bytes.drop offset)).length_le
    rw [List.length_drop] at shorter
    omega

/-- Behind a container the walk has come closer to the end. -/
theorem firstFrom?_advances {bytes : List UInt8} {offset behind : Nat} {container : Container}
    (found : firstFrom? bytes offset = .ok (some (container, behind))) :
    bytes.length - behind < bytes.length - offset := by
  obtain ⟨spaces, -, found⟩ := Fault.bind_eq_ok.mp found
  dsimp only at found
  split at found
  · next quoted =>
    have inside := lt_of_getElem?_any quoted
    cases found
    unfold behindQuote
    split <;> omega
  · obtain ⟨length?, -, found⟩ := Fault.bind_eq_ok.mp found
    cases length? with
    | none => cases found
    | some length =>
      obtain ⟨gap, behindMarker, found⟩ := Fault.bind_eq_ok.mp found
      have inside := spacesFrom_le behindMarker
      split at found
      · cases found
      · cases found
        omega

/-- The containers behind an offset, outermost first. -/
def containersFrom (bytes : List UInt8) (offset : Nat) : Except Fault (List Container) :=
  match _found : firstFrom? bytes offset with
  | .error fault => .error fault
  | .ok none => .ok []
  | .ok (some (container, behind)) => do
    let inner ← containersFrom bytes behind
    return container :: inner
termination_by bytes.length - offset
decreasing_by exact firstFrom?_advances _found

theorem containersFrom_of_none {bytes : List UInt8} {offset : Nat}
    (none : firstFrom? bytes offset = .ok none) : containersFrom bytes offset = .ok [] := by
  rw [containersFrom]
  split
  · next refused =>
    rw [none] at refused
    cases refused
  · rfl
  · next found =>
    rw [none] at found
    cases found

theorem containersFrom_of_some {bytes : List UInt8} {offset behind : Nat} {container : Container}
    (first : firstFrom? bytes offset = .ok (some (container, behind))) :
    containersFrom bytes offset = (containersFrom bytes behind).map (container :: ·) := by
  rw [containersFrom]
  split
  · next refused =>
    rw [first] at refused
    cases refused
  · next none =>
    rw [first] at none
    cases none
  · next found =>
    rw [first] at found
    cases found
    cases containersFrom bytes behind <;> rfl

/-- The offset behind the start of one container on a later line, if the line has it. -/
def enterFrom? (bytes : List UInt8) (offset : Nat) : Container → Except Fault (Option Nat)
  | quote => do
    let spaces ← spacesFrom bytes offset
    let marker := offset + min spaces 3
    return if bytes[marker]?.any (· == '>'.toUInt8) then some (behindQuote bytes marker) else none
  | item width => do
    let spaces ← spacesFrom bytes offset
    return if spaces < width then none else some (offset + width)

/-- The offset behind the starts of all containers on a later line. -/
def enterAllFrom? (bytes : List UInt8) (offset : Nat) :
    List Container → Except Fault (Option Nat)
  | [] => .ok (some offset)
  | container :: containers => do
    match ← enterFrom? bytes offset container with
    | none => return none
    | some behind => enterAllFrom? bytes behind containers

end Container

/-- Where on a line a fence closes a block, found among the bytes of the line; what stands
behind the run is cut off the line to be looked at. -/
def Fence.closingFrom? (fence : Fence) (containers : List Container) (line : Text) :
    Except Fault (Option (Nat × Nat)) := do
  match ← Container.enterAllFrom? line.bytes 0 containers with
  | none => return none
  | some offset =>
    let indent ← Container.spacesFrom line.bytes offset
    if 3 < indent then return none
    else
      let behind ← bytesFrom line.bytes (offset + indent)
      let run := (behind.takeWhile (· == fence.marker.toUInt8)).length
      if run < fence.length then return none
      else
        let rest ← line.onward (offset + indent + run)
        return if rest.all isWhiteSpace then some (offset + indent, run) else none

end Transclusion
