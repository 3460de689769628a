/-! Text as a list of characters, with the cutting and joining the rest of the
library is built from. Positions in a text count characters. -/
namespace Transclusion

/-- A text is the list of its characters. -/
abbrev Text := List Char

namespace Text

/-- The pieces of a text between the occurrences of `sep`: always one more than
there are occurrences. -/
def splitOn (sep : Char) : Text → List Text
  | [] => [[]]
  | c :: rest =>
    if c = sep then [] :: splitOn sep rest
    else
      match splitOn sep rest with
      | [] => [[c]]
      | piece :: pieces => (c :: piece) :: pieces

/-- Texts written one after another with `sep` between neighbours. -/
def joinWith (sep : Char) : List Text → Text
  | [] => []
  | [piece] => piece
  | piece :: next :: pieces => piece ++ sep :: joinWith sep (next :: pieces)

/-- The lines of a text. A final newline is followed by one more, empty line. -/
def lines (text : Text) : List Text := text.splitOn '\n'

/-- Lines joined by newlines. -/
def unlines (pieces : List Text) : Text := joinWith '\n' pieces

/-- What follows `lead` when the text starts with it. -/
def stripPrefix? : (lead : Text) → Text → Option Text
  | [], text => some text
  | _ :: _, [] => none
  | l :: lead, c :: text => if l = c then stripPrefix? lead text else none

/-- Cuts a text at the first `sep`, which belongs to neither part. -/
def cutFirst? (sep : Char) : Text → Option (Text × Text)
  | [] => none
  | c :: rest =>
    if c = sep then some ([], rest)
    else (cutFirst? sep rest).map fun (before, after) => (c :: before, after)

/-- Cuts a text at the last `sep`, which belongs to neither part. -/
def cutLast? (sep : Char) : Text → Option (Text × Text)
  | [] => none
  | c :: rest =>
    match cutLast? sep rest with
    | some (before, after) => some (c :: before, after)
    | none => if c = sep then some ([], rest) else none

/-- Drops the longest end of a list whose members all satisfy `p`. -/
def dropEndWhile {α : Type} (p : α → Bool) (xs : List α) : List α :=
  (xs.reverse.dropWhile p).reverse

/-- How many characters at the front satisfy `p`. -/
def countWhile (p : Char → Bool) (text : Text) : Nat := (text.takeWhile p).length

/-- The number of spaces in front. -/
def leadingSpaces (text : Text) : Nat := text.countWhile (· = ' ')

/-- A text starting with a character that satisfies `p`. -/
def startsWith (p : Char → Bool) (text : Text) : Bool := text.head?.any p

/-- Whether a text stands no later than another in the order of code points. -/
def noLater : Text → Text → Bool
  | [], _ => true
  | _ :: _, [] => false
  | a :: as, b :: bs => a.toNat < b.toNat || (a = b && noLater as bs)

/-- The decimal notation of a number. -/
def ofNat (n : Nat) : Text := Nat.toDigits 10 n

/-- The value of a run of decimal digits. -/
def decimal (digits : Text) : Nat :=
  digits.foldl (fun value digit => 10 * value + (digit.toNat - '0'.toNat)) 0

@[simp] theorem splitOn_nil (sep : Char) : splitOn sep [] = [[]] := rfl

theorem splitOn_ne_nil (sep : Char) (text : Text) : splitOn sep text ≠ [] := by
  cases text with
  | nil => simp
  | cons c rest => unfold splitOn; split <;> (try split) <;> simp

/-- Nothing is lost by splitting. -/
theorem joinWith_splitOn (sep : Char) (text : Text) : joinWith sep (splitOn sep text) = text := by
  induction text with
  | nil => rfl
  | cons c rest ih =>
    unfold splitOn
    split
    · next same =>
      cases pieces : splitOn sep rest with
      | nil => exact absurd pieces (splitOn_ne_nil sep rest)
      | cons piece more => rw [pieces] at ih; simp [joinWith, ih, same]
    · cases pieces : splitOn sep rest with
      | nil => exact absurd pieces (splitOn_ne_nil sep rest)
      | cons piece more =>
        rw [pieces] at ih
        cases more with
        | nil => simpa [joinWith] using ih
        | cons next more => simpa [joinWith] using ih

theorem splitOn_append (sep : Char) (front back : Text) :
    splitOn sep (front ++ sep :: back) = splitOn sep front ++ splitOn sep back := by
  induction front with
  | nil => simp [splitOn]
  | cons c front ih =>
    simp only [List.cons_append, splitOn, ih]
    split
    · rfl
    · cases pieces : splitOn sep front with
      | nil => exact absurd pieces (splitOn_ne_nil sep front)
      | cons piece more => rfl

theorem joinWith_append (sep : Char) {front back : List Text} (nonempty : front ≠ [])
    (more : back ≠ []) :
    joinWith sep (front ++ back) = joinWith sep front ++ sep :: joinWith sep back := by
  induction front with
  | nil => exact absurd rfl nonempty
  | cons piece front ih =>
    cases front with
    | nil =>
      obtain ⟨next, rest, rfl⟩ := List.exists_cons_of_ne_nil more
      rfl
    | cons next front =>
      have later := ih (by simp)
      simp only [List.cons_append, joinWith, List.append_assoc] at later ⊢
      rw [later]

/-- No piece holds the separator. -/
theorem not_mem_of_mem_splitOn {sep : Char} {text piece : Text}
    (member : piece ∈ splitOn sep text) : sep ∉ piece := by
  induction text generalizing piece with
  | nil =>
    obtain rfl : piece = [] := by simpa using member
    simp
  | cons c text ih =>
    unfold splitOn at member
    split at member
    · rcases List.mem_cons.mp member with rfl | later
      · simp
      · exact ih later
    · next other =>
      cases pieces : splitOn sep text with
      | nil => exact absurd pieces (splitOn_ne_nil sep text)
      | cons first more =>
        rw [pieces] at ih member
        rcases List.mem_cons.mp member with rfl | later
        · intro found
          rcases List.mem_cons.mp found with same | inside
          · exact other same.symm
          · exact ih List.mem_cons_self inside
        · exact ih (List.mem_cons_of_mem _ later)

theorem splitOn_of_not_mem {sep : Char} {piece : Text} (free : sep ∉ piece) :
    splitOn sep piece = [piece] := by
  induction piece with
  | nil => rfl
  | cons c piece ih =>
    simp only [List.mem_cons, not_or] at free
    simp [splitOn, ih free.2, Ne.symm free.1]

/-- Joined pieces are split again where they were joined. -/
theorem splitOn_joinWith {sep : Char} {pieces : List Text} (nonempty : pieces ≠ [])
    (free : ∀ piece ∈ pieces, sep ∉ piece) : splitOn sep (joinWith sep pieces) = pieces := by
  induction pieces with
  | nil => exact absurd rfl nonempty
  | cons piece pieces ih =>
    have alone := splitOn_of_not_mem (free piece (by simp))
    cases pieces with
    | nil => exact alone
    | cons next more =>
      have later := ih (by simp) fun other member => free other (by simp [member])
      rw [joinWith, splitOn_append, alone, later]
      rfl

/-- A text starts with `lead` exactly when something follows it. -/
theorem stripPrefix?_eq_some_iff {lead text rest : Text} :
    stripPrefix? lead text = some rest ↔ text = lead ++ rest := by
  induction lead generalizing text with
  | nil => simp [stripPrefix?, eq_comm]
  | cons l lead ih =>
    cases text with
    | nil => simp [stripPrefix?]
    | cons c text =>
      by_cases same : l = c
      · simp [stripPrefix?, same, ih]
      · simp [stripPrefix?, same, Ne.symm same]

/-- Where no last cut is made there is nothing to cut at. -/
theorem not_mem_of_cutLast? {sep : Char} {text : Text} (none : cutLast? sep text = none) :
    sep ∉ text := by
  induction text with
  | nil => simp
  | cons c rest ih =>
    unfold cutLast? at none
    split at none
    · cases none
    · next uncut =>
      by_cases same : c = sep
      · rw [if_pos same] at none
        cases none
      · simp only [List.mem_cons, not_or]
        exact ⟨Ne.symm same, ih uncut⟩

/-- The last cut leaves no separator behind it. -/
theorem cutLast?_eq_some {sep : Char} {text before after : Text}
    (cut : cutLast? sep text = some (before, after)) :
    text = before ++ sep :: after ∧ sep ∉ after := by
  induction text generalizing before with
  | nil => simp [cutLast?] at cut
  | cons c rest ih =>
    unfold cutLast? at cut
    split at cut
    · next b a inner =>
      simp only [Option.some.injEq, Prod.mk.injEq] at cut
      obtain ⟨rfl, rfl⟩ := cut
      obtain ⟨whole, free⟩ := ih inner
      exact ⟨by simp [whole], free⟩
    · next none =>
      split at cut
      · next same =>
        simp only [Option.some.injEq, Prod.mk.injEq] at cut
        obtain ⟨rfl, rfl⟩ := cut
        exact ⟨by simp [same], not_mem_of_cutLast? none⟩
      · simp at cut

end Text
end Transclusion
