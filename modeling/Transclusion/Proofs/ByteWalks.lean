import Mathlib.Data.Option.Basic
import Transclusion.Container.ByteOffsets
import Transclusion.Proofs.AsciiBytes
import Transclusion.Proofs.ClosingLine

/-! The walks over containers among the bytes of a line. Spaces, quote markers and list
markers are all ASCII, so an offset that was moved past them stands between two characters
again, and behind it stands what the walk over the characters has left. -/
namespace Transclusion
open Text

namespace Container

theorem tells_space : Tells (· == ' '.toUInt8) (· = ' ') := tells_char (by decide)

theorem tells_quote : Tells (· == '>'.toUInt8) (· = '>') := tells_char (by decide)

theorem tells_bullet : Tells
    (fun byte => byte == '-'.toUInt8 || byte == '*'.toUInt8 || byte == '+'.toUInt8)
    (fun c => c = '-' || c = '*' || c = '+') :=
  ((tells_char (by decide)).or (tells_char (by decide))).or (tells_char (by decide))

theorem tells_delimiter : Tells
    (fun byte => byte == '.'.toUInt8 || byte == ')'.toUInt8) (fun c => c = '.' || c = ')') :=
  (tells_char (by decide)).or (tells_char (by decide))

/-- The test for a list marker, with every look at the text said apart. -/
private theorem markerLength?_eq_ite (text : Text) : markerLength? text =
    if text.head?.any (fun c => c = '-' || c = '*' || c = '+') then some 1
    else if text.head?.any Char.isDigit then
      if (text.drop (countWhile Char.isDigit text)).head?.any (fun c => c = '.' || c = ')') &&
          countWhile Char.isDigit text ≤ 9 then
        some (countWhile Char.isDigit text + 1)
      else none
    else none := by
  cases text with
  | nil => rfl
  | cons c rest =>
    unfold markerLength? startsWith
    simp only [List.head?_cons, Option.any_some]
    by_cases bullet : (decide (c = '-') || decide (c = '*') || decide (c = '+')) = true
    · simp only [bullet, ↓reduceIte]
    by_cases digit : c.isDigit = true
    · have some : countWhile Char.isDigit (c :: rest) ≠ 0 := by simp [countWhile, digit]
      by_cases few : countWhile Char.isDigit (c :: rest) ≤ 9
      · simp [bullet, digit, some, few]
      · simp [bullet, digit, some, few]
    · have none : countWhile Char.isDigit (c :: rest) = 0 := by simp [countWhile, digit]
      simp [bullet, digit, none]

private theorem first?_of_not_quote {text : Text}
    (other : (text.drop (leadingSpaces text)).head?.any (· = '>') = false) : first? text =
      match markerLength? (text.drop (leadingSpaces text)) with
      | none => none
      | some marker =>
        match leadingSpaces ((text.drop (leadingSpaces text)).drop marker) with
        | 0 => none
        | gap => some (item (leadingSpaces text + marker + gap),
            (text.drop (leadingSpaces text)).drop (marker + gap)) := by
  unfold first?
  dsimp only
  split
  · next tail dropped =>
    rw [dropped] at other
    cases other
  · rfl

private theorem exists_quote {text : Text} (quoted : text.head?.any (· = '>') = true) :
    ∃ tail, text = '>' :: tail := by
  obtain ⟨c, first, same⟩ := (Option.any_eq_true _ _).mp quoted
  obtain ⟨tail, whole⟩ := List.head?_eq_some_iff.mp first
  exact ⟨tail, by rw [whole, of_decide_eq_true same]⟩

section Reading
variable {bytes : List UInt8} {offset : Nat} {text : Text} (behind : Behind bytes offset text)
include behind

theorem spacesFrom_eq : spacesFrom bytes offset = .ok (leadingSpaces text) := by
  unfold spacesFrom
  rw [behind.bytesFrom_eq]
  exact congrArg Except.ok (tells_space.length_takeWhile text)

/-- Characters that a test of bytes finds may be passed. -/
theorem behind_run {q : UInt8 → Bool} {p : Char → Bool} (tells : Tells q p) {n : Nat}
    (few : n ≤ countWhile p text) : Behind bytes (offset + n) (text.drop n) := by
  have short : n ≤ text.length :=
    Nat.le_trans few (List.takeWhile_sublist p).length_le
  have length : (text.take n).length = n := by
    rw [List.length_take, Nat.min_eq_left short]
  have passed := behind.pass (text.take n) (text.drop n) ?_
    (List.take_append_drop n text).symm
  · rwa [length] at passed
  · exact fun c member => tells.lt (of_mem_take few member)

/-- One character that a test of bytes finds may be passed. -/
theorem behind_one {q : UInt8 → Bool} {p : Char → Bool} (tells : Tells q p)
    (found : text.head?.any p = true) : Behind bytes (offset + 1) (text.drop 1) := by
  cases text with
  | nil => cases found
  | cons c rest =>
    apply behind.pass [c] rest _ rfl
    intro d member
    rw [List.mem_singleton.mp member]
    exact tells.lt found

/-- Behind a quote marker the optional space is passed as well. -/
theorem behind_behindQuote {tail : Text} (quoted : text = '>' :: tail) :
    Behind bytes (behindQuote bytes offset) (dropSpace tail) := by
  subst quoted
  have next : Behind bytes (offset + 1) tail := behind_one behind tells_quote rfl
  unfold behindQuote
  rw [next.getElem?_any tells_space]
  rcases eq_of_dropSpace tail with space | ⟨same, noSpace⟩
  · have found : tail.head?.any (· = ' ') = true := by
      rw [space]
      rfl
    have behindSpace := behind_one next tells_space found
    rw [if_pos found]
    rwa [space] at behindSpace
  · have refused : tail.head?.any (· = ' ') = false := by
      cases tail with
      | nil => rfl
      | cons c tail => simpa using noSpace
    rw [refused, if_neg (by simp), ← same]
    exact next

theorem markerLengthFrom?_eq : markerLengthFrom? bytes offset = .ok (markerLength? text) := by
  have digits := behind_run behind tells_digit (Nat.le_refl _)
  have delimiter := digits.getElem?_any tells_delimiter
  rw [markerLength?_eq_ite]
  unfold markerLengthFrom?
  rw [behind.getElem?_any tells_bullet, behind.getElem?_any tells_digit, behind.bytesFrom_eq]
  simp only [bind, Except.bind, tells_digit.length_takeWhile, delimiter]
  split
  · rfl
  · split <;> rfl

theorem behind_marker {length : Nat} (found : markerLength? text = some length) :
    Behind bytes (offset + length) (text.drop length) := by
  rw [markerLength?_eq_ite] at found
  split at found
  · next bullet =>
    cases found
    exact behind_one behind tells_bullet bullet
  · split at found
    · split at found
      · next delimited =>
        cases found
        rw [Bool.and_eq_true] at delimited
        have digits := behind_run behind tells_digit (Nat.le_refl _)
        have next := behind_one digits tells_delimiter delimited.1
        rwa [List.drop_drop] at next
      · cases found
    · cases found

/-- The first container is found where the characters have it. -/
theorem firstFrom?_eq : ∃ found, firstFrom? bytes offset = .ok found ∧
    Option.Rel (fun near far => near.1 = far.1 ∧ Behind bytes near.2 far.2) found (first? text) := by
  have marker : Behind bytes (offset + leadingSpaces text) (text.drop (leadingSpaces text)) :=
    behind_run behind tells_space (Nat.le_refl _)
  unfold firstFrom?
  rw [spacesFrom_eq behind]
  simp only [bind, Except.bind, marker.getElem?_any tells_quote, markerLengthFrom?_eq marker]
  split
  · next quoted =>
    obtain ⟨tail, dropped⟩ := exists_quote quoted
    have whole : first? text = some (quote, dropSpace tail) := by simp [first?, dropped]
    rw [whole]
    exact ⟨_, rfl, .some ⟨rfl, behind_behindQuote marker dropped⟩⟩
  · next other =>
    rw [first?_of_not_quote (by simpa using other)]
    cases found : markerLength? (text.drop (leadingSpaces text)) with
    | none => exact ⟨none, rfl, .none⟩
    | some length =>
      have gapStart := behind_marker marker found
      simp only [spacesFrom_eq gapStart]
      cases gap : leadingSpaces ((text.drop (leadingSpaces text)).drop length) with
      | zero => exact ⟨none, rfl, .none⟩
      | succ n =>
        have next := behind_run gapStart tells_space (Nat.le_of_eq gap.symm)
        rw [List.drop_drop] at next
        exact ⟨_, rfl, .some ⟨rfl, next⟩⟩

end Reading

/-- The containers of a lead are those its bytes have. -/
theorem containersFrom_eq {bytes : List UInt8} {offset : Nat} {lead : Text}
    (behind : Behind bytes offset lead) : containersFrom bytes offset = .ok (ofLead lead) := by
  induction lead using ofLead.induct generalizing offset with
  | case1 lead none =>
    obtain ⟨found, first, related⟩ := firstFrom?_eq behind
    rw [none] at related
    cases related
    rw [containersFrom_of_none first, ofLead_of_none none]
  | case2 lead container rest here ih =>
    obtain ⟨found, first, related⟩ := firstFrom?_eq behind
    rw [here] at related
    cases related with
    | @some near _ related =>
      obtain ⟨rfl, next⟩ := related
      rw [containersFrom_of_some first, ih next, ofLead_of_some here]
      rfl

/-- A container is entered where the characters have it. -/
theorem enterFrom?_eq {bytes : List UInt8} {offset : Nat} {line : Text}
    (behind : Behind bytes offset line) (container : Container) :
    ∃ found, enterFrom? bytes offset container = .ok found ∧
      Option.Rel (Behind bytes) found (enter? line container) := by
  cases container with
  | quote =>
    have marker : Behind bytes (offset + min (leadingSpaces line) 3)
        (line.drop (min (leadingSpaces line) 3)) :=
      behind_run behind tells_space (Nat.min_le_left _ _)
    unfold enterFrom?
    rw [spacesFrom_eq behind]
    simp only [bind, Except.bind, marker.getElem?_any tells_quote]
    split
    · next quoted =>
      obtain ⟨tail, dropped⟩ := exists_quote quoted
      have whole : enter? line quote = some (dropSpace tail) := by simp [enter?, dropped]
      rw [whole]
      exact ⟨_, rfl, .some (behind_behindQuote marker dropped)⟩
    · next other =>
      have none : enter? line quote = none := by
        cases dropped : line.drop (min (leadingSpaces line) 3) with
        | nil => simp [enter?, dropped]
        | cons c tail =>
          have differs : c ≠ '>' := by simpa [dropped] using other
          simp [enter?, dropped, differs]
      rw [none]
      exact ⟨_, rfl, .none⟩
  | item width =>
    have spaces := spacesFrom_eq behind
    by_cases narrow : leadingSpaces line < width
    · refine ⟨none, ?_, ?_⟩
      · simp only [enterFrom?, spaces, bind, Except.bind, narrow, ↓reduceIte]
        rfl
      · simp only [enter?, narrow, ↓reduceIte]
        exact .none
    · refine ⟨some (offset + width), ?_, ?_⟩
      · simp only [enterFrom?, spaces, bind, Except.bind, narrow, ↓reduceIte]
        rfl
      · simp only [enter?, narrow, ↓reduceIte]
        exact .some (behind_run behind tells_space (Nat.le_of_not_lt narrow))

theorem enterAllFrom?_eq {bytes : List UInt8} {offset : Nat} {line : Text}
    (behind : Behind bytes offset line) (containers : List Container) :
    ∃ found, enterAllFrom? bytes offset containers = .ok found ∧
      Option.Rel (Behind bytes) found (enterAll? containers line) := by
  induction containers generalizing offset line with
  | nil => exact ⟨_, rfl, .some behind⟩
  | cons container containers ih =>
    obtain ⟨found, first, related⟩ := enterFrom?_eq behind container
    rw [enterAll?_cons, enterAllFrom?, first]
    cases entered : enter? line container with
    | none =>
      rw [entered] at related
      cases related
      exact ⟨none, rfl, .none⟩
    | some rest =>
      rw [entered] at related
      cases related with
      | some next => exact ih next

end Container

namespace Fence
open Container

variable {fence : Fence}

theorem ascii_of_marks {front : Text} (marks : ∀ c ∈ front, c = ' ' ∨ c = '>') :
    ∀ c ∈ front, c.toNat < 128 := by
  intro c member
  rcases marks c member with rfl | rfl <;> decide

theorem ascii_of_marker {c : Char} (marker : FencedBlock.isMarker c = true) :
    c.toNat < 128 := by
  rcases FencedBlock.isMarker_iff.mp marker with rfl | rfl <;> decide

/-- What stands behind a run is cut off where the bytes were counted. -/
private theorem onward_run {front : Text} (rest : Text) (ascii : fence.marker.toNat < 128)
    (marks : ∀ c ∈ front, c = ' ' ∨ c = '>') :
    (front ++ rest).onward (front.length + leadingSpaces rest +
        countWhile (· = fence.marker) (rest.drop (leadingSpaces rest))) =
      .ok ((rest.drop (leadingSpaces rest)).drop
        (countWhile (· = fence.marker) (rest.drop (leadingSpaces rest)))) := by
  obtain ⟨tail, spaces, dropped, -⟩ := exists_leadingSpaces rest
  obtain ⟨behind, runs, cut, -⟩ := exists_run fence.marker tail
  let passed := front ++ (List.replicate (leadingSpaces rest) ' ' ++
    List.replicate (countWhile (· = fence.marker) tail) fence.marker)
  have whole : front ++ rest = passed ++ tail.drop (countWhile (· = fence.marker) tail) := by
    conv => lhs; rw [spaces]
    conv => lhs; rw [runs]
    simp only [passed, cut, List.append_assoc]
  have passedAscii : ∀ c ∈ passed, c.toNat < 128 := by
    intro c member
    simp only [passed, List.mem_append] at member
    rcases member with inFront | indent | inRun
    · exact ascii_of_marks marks c inFront
    · rw [List.eq_of_mem_replicate indent]
      decide
    · rw [List.eq_of_mem_replicate inRun]
      exact ascii
  have length : passed.byteLength = front.length + leadingSpaces rest +
      countWhile (· = fence.marker) tail := by
    rw [byteLength_ascii passedAscii]
    simp [passed, Nat.add_assoc]
  rw [dropped, whole, ← length]
  exact onward_append passed _

/-- The bytes of a line give the closing run its characters do, if a marker is one byte. -/
theorem closingFrom?_eq_of_ascii (ascii : fence.marker.toNat < 128)
    (containers : List Container) (line : Text) :
    fence.closingFrom? containers line = .ok (fence.closing? containers line) := by
  obtain ⟨found, walked, related⟩ := enterAllFrom?_eq (behind_zero line) containers
  unfold closingFrom? closing?
  rw [walked]
  cases entered : enterAll? containers line with
  | none =>
    rw [entered] at related
    cases related
    rfl
  | some rest =>
    rw [entered] at related
    cases related with
    | @some offset _ behind =>
      obtain ⟨front, rfl, marks, -⟩ := enterAll?_front entered
      have place : offset = front.length := by
        have total := congrArg List.length behind.rest
        have inside := behind.inside
        simp only [List.length_drop, length_bytes, byteLength_append,
          byteLength_ascii (ascii_of_marks marks)] at total inside
        omega
      subst place
      have afterSpaces : Behind (bytes (front ++ rest)) (front.length + leadingSpaces rest)
          (rest.drop (leadingSpaces rest)) := behind_run behind tells_space (Nat.le_refl _)
      have before : (front ++ rest).length - rest.length = front.length := by simp
      have cut := onward_run rest ascii marks
      simp only [bind, Except.bind, spacesFrom_eq behind, afterSpaces.bytesFrom_eq,
        (tells_char ascii).length_takeWhile, cut, before]
      by_cases deep : 3 < leadingSpaces rest
      · simp only [deep, ↓reduceIte, decide_true, Bool.true_or]
        rfl
      by_cases short : countWhile (· = fence.marker) (rest.drop (leadingSpaces rest)) < fence.length
      · simp only [deep, short, ↓reduceIte, decide_true, Bool.or_true]
        rfl
      · simp only [deep, short, ↓reduceIte, decide_false, Bool.or_false, Bool.false_eq_true]
        rfl

theorem closingFrom?_eq (marker : FencedBlock.isMarker fence.marker = true)
    (containers : List Container) (line : Text) :
    fence.closingFrom? containers line = .ok (fence.closing? containers line) :=
  closingFrom?_eq_of_ascii (ascii_of_marker marker) containers line

end Fence
end Transclusion
