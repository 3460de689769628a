import Transclusion.Fence
import Transclusion.Text.WhiteSpace

/-! Block quotes and list items around a fenced block, as they are read from the
line of its opening fence, and the walk over them on a later line. -/
namespace Transclusion

/-- One level of nesting in front of a fence. -/
inductive Container where
  /-- A block quote: up to three spaces, `>` and one optional space. -/
  | quote
  /-- A list item whose content starts `width` columns into the enclosing container. -/
  | item (width : Nat)
deriving DecidableEq, Repr

namespace Container

/-- A text without one space in front. -/
def dropSpace : Text → Text
  | ' ' :: rest => rest
  | text => text

theorem length_dropSpace_le (text : Text) : (dropSpace text).length ≤ text.length := by
  unfold dropSpace; split <;> simp

/-- The length of the list marker a text starts with: a bullet, or at most nine
digits and a dot or parenthesis. -/
def markerLength? (text : Text) : Option Nat :=
  match text with
  | [] => none
  | c :: _ =>
    if c = '-' || c = '*' || c = '+' then some 1
    else
      let digits := text.countWhile Char.isDigit
      if digits = 0 || 9 < digits then none
      else if Text.startsWith (fun d => d = '.' || d = ')') (text.drop digits) then
        some (digits + 1)
      else none

/-- The first container of a text and what follows it. A list marker needs a space
behind it, and all spaces behind it belong to the item. -/
def first? (text : Text) : Option (Container × Text) :=
  let spaces := text.leadingSpaces
  match text.drop spaces with
  | '>' :: rest => some (quote, dropSpace rest)
  | rest =>
    match markerLength? rest with
    | none => none
    | some marker =>
      match Text.leadingSpaces (rest.drop marker) with
      | 0 => none
      | gap => some (item (spaces + marker + gap), rest.drop (marker + gap))

theorem markerLength?_pos {text : Text} {n : Nat} (h : markerLength? text = some n) : 0 < n := by
  unfold markerLength? at h
  split at h
  · simp at h
  · split at h
    · simp at h; omega
    · simp only at h
      split at h
      · simp at h
      · split at h <;> simp at h; omega

/-- A container is made of at least one character. -/
theorem first?_shorter {text rest : Text} {container : Container}
    (h : first? text = some (container, rest)) : rest.length < text.length := by
  unfold first? at h
  simp only at h
  split at h
  · next tail dropped =>
    simp only [Option.some.injEq, Prod.mk.injEq] at h
    obtain ⟨-, rfl⟩ := h
    have smaller := length_dropSpace_le tail
    have length : (text.drop text.leadingSpaces).length = tail.length + 1 := by simp [dropped]
    simp only [List.length_drop] at length
    omega
  · split at h
    · simp at h
    · next marker found =>
      have positive := markerLength?_pos found
      split at h
      · simp at h
      · simp only [Option.some.injEq, Prod.mk.injEq] at h
        obtain ⟨-, rfl⟩ := h
        have nonempty : 0 < (text.drop text.leadingSpaces).length := by
          rcases ends : text.drop text.leadingSpaces with _ | ⟨c, more⟩
          · simp [ends, markerLength?] at found
          · simp
        simp only [List.length_drop] at nonempty ⊢
        omega

/-- The containers in front of a fence, outermost first; what follows them is the
indentation of the fence itself. -/
def ofLead (lead : Text) : List Container :=
  match _found : first? lead with
  | none => []
  | some (container, rest) => container :: ofLead rest
termination_by lead.length
decreasing_by exact first?_shorter _found

theorem ofLead_of_none {lead : Text} (none : first? lead = none) : ofLead lead = [] := by
  rw [ofLead]
  split
  · rfl
  · next found =>
    rw [none] at found
    cases found

theorem ofLead_of_some {lead rest : Text} {container : Container}
    (first : first? lead = some (container, rest)) :
    ofLead lead = container :: ofLead rest := by
  rw [ofLead]
  split
  · next found =>
    rw [first] at found
    cases found
  · next found =>
    rw [first] at found
    cases found
    rfl

/-- What follows the start of one container on a later line, if the line has it. -/
def enter? (line : Text) : Container → Option Text
  | quote =>
    match line.drop (min line.leadingSpaces 3) with
    | '>' :: rest => some (dropSpace rest)
    | _ => none
  | item width => if line.leadingSpaces < width then none else some (line.drop width)

/-- What follows the starts of all containers on a later line. -/
def enterAll? (containers : List Container) (line : Text) : Option Text :=
  containers.foldlM enter? line

/-- What a lead becomes on the lines after it: quote marks and tabs stay, everything
else becomes a space. -/
def continuation (lead : Text) : Text :=
  lead.map fun c => if c = '>' || c = '\t' then c else ' '

end Container

/-- Where on a line a fence of the same marker closes a block opened by `fence`
inside `containers`: at most three spaces after them stands a run at least as
long, with nothing but white space behind it. -/
def Fence.closing? (fence : Fence) (containers : List Container) (line : Text) :
    Option (Nat × Nat) :=
  match Container.enterAll? containers line with
  | none => none
  | some rest =>
    let indent := Text.leadingSpaces rest
    let run := Text.countWhile (· = fence.marker) (rest.drop indent)
    if 3 < indent || run < fence.length then none
    else if ((rest.drop indent).drop run).all isWhiteSpace then
      some (line.length - rest.length + indent, run)
    else none

end Transclusion
