import Transclusion.Text

/-! The UTF-8 length of a text, and the translation between positions that count
characters and offsets that count bytes. -/
namespace Transclusion.Text

/-- How many bytes a text takes in UTF-8. -/
def byteLength : Text → Nat
  | [] => 0
  | c :: rest => c.utf8Size + byteLength rest

/-- The byte offset of the character position `position`. -/
def byteOffset (text : Text) (position : Nat) : Nat := byteLength (text.take position)

/-- The character position at a byte offset, when the offset falls between two
characters or at an end. -/
def positionOf? : Text → (offset : Nat) → Option Nat
  | _, 0 => some 0
  | [], _ + 1 => none
  | c :: rest, offset + 1 =>
    if c.utf8Size ≤ offset + 1 then (positionOf? rest (offset + 1 - c.utf8Size)).map (· + 1)
    else none

theorem byteLength_append (front back : Text) :
    byteLength (front ++ back) = byteLength front + byteLength back := by
  induction front with
  | nil => simp [byteLength]
  | cons c front ih =>
    simp only [List.cons_append, byteLength, ih]
    omega

/-- Reading an offset undoes taking it. -/
theorem positionOf?_byteOffset {text : Text} {position : Nat} (inside : position ≤ text.length) :
    positionOf? text (byteOffset text position) = some position := by
  induction text generalizing position with
  | nil => simp_all [byteOffset, byteLength, positionOf?]
  | cons c rest ih =>
    cases position with
    | zero => simp [byteOffset, byteLength, positionOf?]
    | succ position =>
      have size := c.utf8Size_pos
      have whole : byteOffset (c :: rest) (position + 1) =
          (c.utf8Size + byteOffset rest position - 1) + 1 := by
        simp only [byteOffset, byteLength, List.take_succ_cons]
        omega
      rw [whole, positionOf?, if_pos (by omega)]
      have left : c.utf8Size + byteOffset rest position - 1 + 1 - c.utf8Size =
          byteOffset rest position := by omega
      rw [left, ih (by simpa using inside)]
      rfl

/-- An offset that is read is that of the position found. -/
theorem byteOffset_of_positionOf? {text : Text} {offset position : Nat}
    (found : positionOf? text offset = some position) :
    position ≤ text.length ∧ byteOffset text position = offset := by
  induction text generalizing offset position with
  | nil =>
    cases offset with
    | zero =>
      cases found
      exact ⟨Nat.le_refl _, rfl⟩
    | succ offset => cases found
  | cons c rest ih =>
    cases offset with
    | zero =>
      cases found
      exact ⟨Nat.zero_le _, rfl⟩
    | succ offset =>
      unfold positionOf? at found
      split at found
      · next fits =>
        obtain ⟨inner, here, rfl⟩ := Option.map_eq_some_iff.mp found
        obtain ⟨inside, same⟩ := ih here
        have whole : byteOffset (c :: rest) (inner + 1) = c.utf8Size + byteOffset rest inner := rfl
        refine ⟨Nat.succ_le_succ inside, ?_⟩
        rw [whole, same]
        omega
      · cases found

theorem byteOffset_append (front back : Text) :
    byteOffset (front ++ back) front.length = byteLength front := by
  rw [byteOffset, List.take_left]

/-- A later position has at least as large an offset. -/
theorem byteOffset_mono (text : Text) {position other : Nat} (order : position ≤ other) :
    byteOffset text position ≤ byteOffset text other := by
  have further : byteOffset text other =
      byteOffset text position + byteLength ((text.drop position).take (other - position)) := by
    rw [byteOffset, byteOffset, ← byteLength_append, ← List.take_add, Nat.add_sub_cancel' order]
  omega

/-- Positions and their offsets are in the same order. -/
theorem byteOffset_lt_iff (text : Text) {position other : Nat} (inside : position ≤ text.length)
    (otherInside : other ≤ text.length) :
    byteOffset text position < byteOffset text other ↔ position < other := by
  constructor
  · intro before
    by_cases order : position < other
    · exact order
    · have back := byteOffset_mono text (Nat.le_of_not_lt order)
      omega
  · intro order
    apply Nat.lt_of_le_of_ne (byteOffset_mono text (Nat.le_of_lt order))
    intro same
    have found := positionOf?_byteOffset inside
    rw [same, positionOf?_byteOffset otherInside] at found
    have equal := Option.some.inj found
    omega

theorem byteOffset_le_iff (text : Text) {position other : Nat} (inside : position ≤ text.length)
    (otherInside : other ≤ text.length) :
    byteOffset text position ≤ byteOffset text other ↔ position ≤ other := by
  rw [← Nat.not_lt, byteOffset_lt_iff text otherInside inside, Nat.not_lt]

end Transclusion.Text
