import Mathlib.Order.Bounds.Defs
import Transclusion.Fence.ByteOffsets
import Transclusion.Proofs.ByteWalks
import Transclusion.Proofs.FenceWidening

/-! The least fence that is safe for some lines. It is known by the lengths that are enough: no
shorter than the fence it was, and above every run in front of a line. All laws of widening are
laws of these bounds, and a fence of such a length is closed by no line, however it is indented. -/
namespace Transclusion.Fence
open Text Container

variable {fence other : Fence} {line : Text} {lines : List Text}

/-- A run of markers that a line begins with, behind its indentation of at most three spaces. -/
def Fronts (marker : Char) (line : Text) (run : Nat) : Prop :=
  ∃ indent rest, indent ≤ 3 ∧
    line = List.replicate indent ' ' ++ (List.replicate run marker ++ rest) ∧
    (List.replicate run marker ++ rest).head? ≠ some ' '

section Runs

/-- The run that is counted is the longest a line begins with. -/
theorem runIn_lt_iff {length : Nat} (positive : 0 < length) :
    fence.runIn line < length ↔ ∀ run, Fronts fence.marker line run → run < length := by
  constructor
  · rintro shorter run ⟨indent, rest, few, rfl, noSpace⟩
    have spaces : leadingSpaces
        (List.replicate indent ' ' ++ (List.replicate run fence.marker ++ rest)) = indent := by
      rw [leadingSpaces_replicate, leadingSpaces_eq_zero noSpace, Nat.add_zero]
    have counted : run ≤ countWhile (· = fence.marker) (List.replicate run fence.marker ++ rest) := by
      unfold countWhile
      rw [List.takeWhile_append_of_pos (by simp)]
      simp
    rw [runIn, spaces, if_pos few, drop_spaces] at shorter
    omega
  · intro above
    unfold runIn
    split
    · next few =>
      obtain ⟨tail, whole, dropped, noSpace⟩ := exists_leadingSpaces line
      rw [dropped]
      obtain ⟨rest, runs, -⟩ := exists_run fence.marker tail
      refine above _ ⟨leadingSpaces line, rest, few, ?_, ?_⟩
      · rw [← runs]
        exact whole
      · rw [← runs]
        exact noSpace
    · exact positive

/-- A line without containers closes a block only by the run it begins with. -/
theorem closing?_eq_none (shorter : fence.runIn line < fence.length) (indent : Nat) :
    fence.closing? [] (List.replicate indent ' ' ++ line) = none := by
  have entered : enterAll? [] (List.replicate indent ' ' ++ line) =
      some (List.replicate indent ' ' ++ line) := rfl
  unfold closing?
  rw [entered]
  dsimp only
  rw [leadingSpaces_replicate]
  by_cases deep : 3 < indent + leadingSpaces line
  · simp [deep]
  · rw [runIn, if_pos (by omega)] at shorter
    have behind : (List.replicate indent ' ' ++ line).drop (indent + leadingSpaces line) =
        line.drop (leadingSpaces line) := by
      rw [← List.drop_drop, drop_spaces]
    simp [behind, shorter]

end Runs

section Laws
variable (positive : 0 < fence.length)
include positive

theorem widenFor_positive (lines : List Text) : 0 < (fence.widenFor lines).length :=
  Nat.lt_of_lt_of_le positive (length_le_widenFor fence lines)

/-- The lengths that are enough determine the chosen fence. -/
theorem widenFor_eq_of_le_iff (marker : other.marker = fence.marker)
    (enough : ∀ length, (fence.length ≤ length ∧ ∀ line ∈ lines, fence.runIn line < length) ↔
      other.length ≤ length) : fence.widenFor lines = other := by
  have length : (fence.widenFor lines).length = other.length :=
    eq_of_forall_ge_iff fun length => (length_widenFor_le_iff positive).trans (enough length)
  have sameMarker : (fence.widenFor lines).marker = other.marker :=
    (widenFor_marker fence lines).trans marker.symm
  cases chosen : fence.widenFor lines
  cases other
  simp_all

theorem widenFor_append (xs ys : List Text) :
    fence.widenFor (xs ++ ys) = (fence.widenFor xs).widenFor ys := by
  have marker := widenFor_marker fence xs
  refine widenFor_eq_of_le_iff positive ((widenFor_marker _ ys).trans marker) fun length => ?_
  rw [length_widenFor_le_iff (widenFor_positive positive xs), length_widenFor_le_iff positive,
    runIn_congr marker, List.forall_mem_append, and_assoc]

/-- Only which lines there are matters. -/
theorem widenFor_congr {others : List Text} (same : ∀ line, line ∈ others ↔ line ∈ lines) :
    fence.widenFor others = fence.widenFor lines := by
  refine widenFor_eq_of_le_iff positive (widenFor_marker fence lines) fun length => ?_
  rw [length_widenFor_le_iff positive]
  simp only [same]

/-- The chosen length is the least that is above every run in front of a line. -/
theorem isLeast_length_widenFor (lines : List Text) :
    IsLeast {length | fence.length ≤ length ∧
      ∀ line ∈ lines, ∀ run, Fronts fence.marker line run → run < length}
      (fence.widenFor lines).length := by
  have enough : ∀ length, (fence.length ≤ length ∧
      ∀ line ∈ lines, ∀ run, Fronts fence.marker line run → run < length) ↔
      (fence.widenFor lines).length ≤ length := by
    intro length
    rw [length_widenFor_le_iff positive]
    refine and_congr_right fun longer => forall₂_congr fun line member => ?_
    exact (runIn_lt_iff (Nat.lt_of_lt_of_le positive longer)).symm
  exact ⟨(enough _).mpr (Nat.le_refl _), fun length above => (enough length).mp above⟩

end Laws

section Bytes
variable (ascii : fence.marker.toNat < 128)
include ascii

/-- A line loses one byte with each of its leading spaces. -/
theorem runBytes?_eq (line : Text) :
    fence.runBytes? line = if leadingSpaces line ≤ 3 then some (fence.runIn line) else none := by
  obtain ⟨tail, whole, dropped, -⟩ := exists_leadingSpaces line
  have trimmed : line.dropWhile (· = ' ') = tail := (drop_countWhile _ line).symm.trans dropped
  have spaces : byteLength (List.replicate (leadingSpaces line) ' ') = leadingSpaces line := by
    rw [tells_space.byteLength_eq (by simp), List.length_replicate]
  have lost : line.byteLength - tail.byteLength = leadingSpaces line := by
    conv => lhs; arg 1; rw [whole]
    rw [byteLength_append, spaces, Nat.add_sub_cancel]
  unfold runBytes? runIn
  simp only [trimmed, lost, dropped, (tells_char ascii).length_takeWhile]
  split
  · rfl
  · rfl

/-- The bytes of the lines choose the fence their characters do. -/
theorem widenBytes_eq (lines : List Text) : fence.widenBytes lines = fence.widenFor lines := by
  have start : ∀ runs : List Nat, runs.max?.getD 0 = runs.foldl max 0 := by
    intro runs
    cases runs with
    | nil => rfl
    | cons run runs => rw [List.max?_cons', Option.getD_some, List.foldl_cons, Nat.zero_max]
  have longest : (lines.filterMap fence.runBytes?).max?.getD 0 =
      (lines.map fence.runIn).foldl max 0 := by
    rw [start, List.foldl_filterMap, List.foldl_map]
    congr 1
    funext most line
    rw [runBytes?_eq ascii]
    by_cases few : leadingSpaces line ≤ 3
    · simp [few]
    · simp [few, runIn]
  unfold widenBytes widenFor
  rw [longest]

end Bytes

/-- Widening keeps the marker and chooses the least fence that no line closes, however far it
is indented. What was widened for some lines is widened for the rest as if for all at once, so
neither their order nor their number matters. One marker byte makes the same choice. -/
theorem widenFor_least_safe (fence : Fence) (positive : 0 < fence.length) (lines : List Text) :
    let wide := fence.widenFor lines
    wide.marker = fence.marker ∧ fence.length ≤ wide.length ∧
    (∀ line ∈ lines, ∀ indent, wide.closing? [] (List.replicate indent ' ' ++ line) = none) ∧
    IsLeast {length | fence.length ≤ length ∧
      ∀ line ∈ lines, ∀ run, Fronts fence.marker line run → run < length} wide.length ∧
    (∀ xs ys, fence.widenFor (xs ++ ys) = (fence.widenFor xs).widenFor ys) ∧
    wide.widenFor lines = wide ∧
    (∀ others, (∀ line, line ∈ others ↔ line ∈ lines) → fence.widenFor others = wide) ∧
    (fence.marker.toNat < 128 → fence.widenBytes lines = wide ∧
      ∀ line ∈ lines, ∀ indent,
        wide.closingFrom? [] (List.replicate indent ' ' ++ line) = .ok none) := by
  intro wide
  have marker : wide.marker = fence.marker := widenFor_marker fence lines
  have safe : ∀ line ∈ lines, ∀ indent,
      wide.closing? [] (List.replicate indent ' ' ++ line) = none := by
    intro line member indent
    refine closing?_eq_none ?_ indent
    rw [runIn_congr marker]
    exact runIn_lt_widenFor member
  refine ⟨marker, length_le_widenFor fence lines, safe, isLeast_length_widenFor positive lines,
    widenFor_append positive, widenFor_widenFor fence lines,
    fun others same => widenFor_congr positive same, fun ascii => ⟨widenBytes_eq ascii lines, ?_⟩⟩
  intro line member indent
  rw [closingFrom?_eq_of_ascii (by rw [marker]; exact ascii), safe line member indent]

/-- A run behind three spaces counts and one behind four does not, in whatever order. -/
theorem widenFor_least_safe_indented :
    let fence : Fence := ⟨'`', 3⟩
    let lines : List Text := ["   ````".toList, "    ``````".toList]
    0 < fence.length ∧ fence.widenFor lines = ⟨'`', 5⟩ ∧
      fence.widenFor lines.reverse = fence.widenFor lines ∧
      fence.widenBytes lines = fence.widenFor lines ∧
      (fence.widenFor lines).closing? [] (List.replicate 1 ' ' ++ "   ````".toList) = none := by
  intro fence lines
  have positive : 0 < fence.length := by decide
  obtain ⟨-, -, safe, -, -, -, sameLines, ofBytes⟩ := widenFor_least_safe fence positive lines
  refine ⟨positive, by decide, sameLines _ fun line => List.mem_reverse, ?_, ?_⟩
  · exact (ofBytes (by decide)).1
  · exact safe _ (by decide) 1

end Transclusion.Fence
