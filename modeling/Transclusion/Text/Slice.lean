import Transclusion.Text.Utf8

/-! Cutting a text at byte offsets. An offset inside a character or behind the end is
refused, and so is a cut that runs backwards; nothing here falls back on a default. -/
namespace Transclusion

/-- Why a cut or a look at a byte is refused. -/
inductive Fault where
  /-- No character of the text starts at the offset, nor does the text end there. -/
  | notBetweenCharacters (offset : Nat)
  /-- The cut ends before it starts. -/
  | backwards (start stop : Nat)
  /-- The bytes end before the offset. -/
  | pastTheEnd (offset : Nat)
deriving DecidableEq, Repr

/-- Steps have a result when every one of them has. -/
theorem Fault.bind_eq_ok {α β : Type} {first : Except Fault α} {next : α → Except Fault β}
    {result : β} :
    (first >>= next) = .ok result ↔ ∃ value, first = .ok value ∧ next value = .ok result := by
  cases first with
  | error fault =>
    constructor
    · intro refused
      cases refused
    · rintro ⟨value, refused, -⟩
      cases refused
  | ok value =>
    constructor
    · intro found
      exact ⟨value, rfl, found⟩
    · rintro ⟨other, same, found⟩
      cases same
      exact found

namespace Text

/-- The bytes of a text in UTF-8. -/
def bytes (text : Text) : List UInt8 := text.flatMap String.utf8EncodeChar

/-- Whether a byte is a decimal digit. -/
def isDigitByte (byte : UInt8) : Bool := '0'.toUInt8 ≤ byte && byte ≤ '9'.toUInt8

/-- The position of a byte offset. -/
def cutAt (text : Text) (offset : Nat) : Except Fault Nat :=
  match positionOf? text offset with
  | some position => .ok position
  | none => .error (.notBetweenCharacters offset)

/-- What stands in front of a byte offset. -/
def upTo (text : Text) (offset : Nat) : Except Fault Text := do
  let position ← text.cutAt offset
  return text.take position

/-- What stands behind a byte offset. -/
def onward (text : Text) (offset : Nat) : Except Fault Text := do
  let position ← text.cutAt offset
  return text.drop position

/-- What stands between two byte offsets. -/
def between (text : Text) (start stop : Nat) : Except Fault Text := do
  let first ← text.cutAt start
  let last ← text.cutAt stop
  if last < first then throw (.backwards start stop)
  return (text.take last).drop first

/-- The bytes behind an offset. -/
def bytesFrom (bytes : List UInt8) (offset : Nat) : Except Fault (List UInt8) :=
  if bytes.length < offset then .error (.pastTheEnd offset) else .ok (bytes.drop offset)

/-- The byte at an offset. -/
def byteAt (bytes : List UInt8) (offset : Nat) : Except Fault UInt8 :=
  match bytes[offset]? with
  | some byte => .ok byte
  | none => .error (.pastTheEnd offset)

/-- The byte offset of the first character that satisfies `p`. -/
def find? (p : Char → Bool) : Text → Option Nat
  | [] => none
  | c :: rest => if p c then some 0 else (find? p rest).map (c.utf8Size + ·)

/-- The byte offset of the last character that satisfies `p`. -/
def findLast? (p : Char → Bool) : Text → Option Nat
  | [] => none
  | c :: rest =>
    match findLast? p rest with
    | some offset => some (c.utf8Size + offset)
    | none => if p c then some 0 else none

theorem length_bytes (text : Text) : text.bytes.length = text.byteLength := by
  induction text with
  | nil => rfl
  | cons c rest ih =>
    have length : (bytes (c :: rest)).length = c.utf8Size + (bytes rest).length := by simp [bytes]
    rw [length, ih, byteLength]

theorem bytes_append (front back : Text) : bytes (front ++ back) = bytes front ++ bytes back := by
  simp [bytes]

/-- A cut stands at the offset of its position. -/
theorem byteOffset_of_cutAt {text : Text} {offset position : Nat}
    (cut : text.cutAt offset = .ok position) :
    position ≤ text.length ∧ text.byteOffset position = offset := by
  unfold cutAt at cut
  split at cut
  · next found =>
    cases cut
    exact byteOffset_of_positionOf? found
  · cases cut

section Cuts
variable (front middle back : Text)

/-- Between two texts written one after the other there is a cut. -/
theorem cutAt_append : (front ++ back).cutAt front.byteLength = .ok front.length := by
  have inside : front.length ≤ (front ++ back).length := by simp
  have found := positionOf?_byteOffset inside
  rw [byteOffset_append] at found
  rw [cutAt, found]

theorem upTo_append : (front ++ back).upTo front.byteLength = .ok front := by
  rw [upTo, cutAt_append]
  exact congrArg Except.ok List.take_left

theorem onward_append : (front ++ back).onward front.byteLength = .ok back := by
  rw [onward, cutAt_append]
  exact congrArg Except.ok List.drop_left

theorem between_append :
    (front ++ (middle ++ back)).between front.byteLength (front ++ middle).byteLength =
      .ok middle := by
  have second := cutAt_append (front ++ middle) back
  rw [List.append_assoc] at second
  have forward : ¬ (front ++ middle).length < front.length := by simp
  have cut : ((front ++ (middle ++ back)).take (front ++ middle).length).drop front.length =
      middle := by
    rw [← List.append_assoc, List.take_left, List.drop_left]
  unfold between
  rw [cutAt_append, second]
  simp only [bind, Except.bind, forward, ↓reduceIte, cut]
  rfl

end Cuts

section Searching
variable {p : Char → Bool} {front back : Text}

theorem find?_append (none : ∀ c ∈ front, p c = false) (first : back.head?.any p = true) :
    find? p (front ++ back) = some front.byteLength := by
  induction front with
  | nil =>
    cases back with
    | nil => simp at first
    | cons c back =>
      have found : p c = true := by simpa using first
      simp [find?, found, byteLength]
  | cons c front ih =>
    have refused := none c (by simp)
    have later := ih fun other member => none other (by simp [member])
    simp [find?, refused, later, byteLength]

theorem find?_eq_none (none : ∀ c ∈ front, p c = false) : find? p front = Option.none := by
  induction front with
  | nil => rfl
  | cons c front ih =>
    have refused := none c (by simp)
    simp [find?, refused, ih fun other member => none other (by simp [member])]

theorem findLast?_eq_none (none : ∀ c ∈ front, p c = false) :
    findLast? p front = Option.none := by
  induction front with
  | nil => rfl
  | cons c front ih =>
    have refused := none c (by simp)
    simp [findLast?, refused, ih fun other member => none other (by simp [member])]

theorem findLast?_append {c : Char} (front : Text) (found : p c = true)
    (none : ∀ d ∈ back, p d = false) :
    findLast? p (front ++ c :: back) = some front.byteLength := by
  induction front with
  | nil => simp [findLast?, findLast?_eq_none none, found, byteLength]
  | cons d front ih => simp [findLast?, ih, byteLength]

end Searching

end Text
end Transclusion
