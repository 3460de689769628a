import Transclusion.Meta.ByteOffsets
import Transclusion.Proofs.AsciiBytes
import Transclusion.Proofs.TokenBoundaries

/-! Tokens taken off one after the other. Each search starts afresh on what is left and sees
nothing in front of it, and still stops where the whole text is parted, since what was cut off
last is a space. Continuation bytes are no spaces, so every cut falls between characters. -/
namespace Transclusion.Meta
open Text
variable {text token rest front back : Text} {pieces : List Text} {offset : Nat}

section Bytes

/-- The space that parts a text is seen among its bytes, and so is what it follows. -/
theorem separates_of_parts (parts : Parts text front back) :
    separates text.bytes front.byteLength = .ok true := by
  obtain ⟨rfl, ends⟩ := parts
  have space : (Text.bytes (front ++ ' ' :: back))[front.byteLength]? = some ' '.toUInt8 :=
    (getElem?_bytes_eq_some_iff (by decide)).mpr ⟨front, back, rfl, rfl⟩
  unfold separates byteAt
  rw [space]
  by_cases first : front.byteLength = 0
  · simp only [first, bind, Except.bind]
    rfl
  · have inside : front.byteLength - 1 < (Text.bytes (front ++ ' ' :: back)).length := by
      rw [length_bytes, byteLength_append]
      omega
    have before := List.getElem?_eq_getElem inside
    have other : (Text.bytes (front ++ ' ' :: back))[front.byteLength - 1] ≠ '\\'.toUInt8 := by
      intro same
      rw [same] at before
      exact ends ((getElem?_bytes_before (by decide) first).mp before)
    simp only [bind, Except.bind, first, ↓reduceIte, before, bne_self_eq_false, Bool.false_eq_true,
      bne_iff_ne.mpr other]
    rfl

/-- A byte that no space of this kind has is passed, whether it starts a character or not. -/
theorem separates_of_not_parts (inside : offset < text.bytes.length)
    (none : ∀ front back, Parts text front back → front.byteLength ≠ offset) :
    separates text.bytes offset = .ok false := by
  have here := List.getElem?_eq_getElem inside
  unfold separates byteAt
  rw [here]
  by_cases space : text.bytes[offset] = ' '.toUInt8
  · rw [space] at here
    obtain ⟨front, back, rfl, rfl⟩ := (getElem?_bytes_eq_some_iff (by decide)).mp here
    have escaped : front.getLast? = some '\\' := by
      by_contra ends
      exact none front back ⟨rfl, ends⟩ rfl
    have notFirst : front.byteLength ≠ 0 := by
      intro first
      rw [eq_nil_of_byteLength first] at escaped
      cases escaped
    have before : (Text.bytes (front ++ ' ' :: back))[front.byteLength - 1]? =
        some '\\'.toUInt8 := (getElem?_bytes_before (by decide) notFirst).mpr escaped
    simp only [bind, Except.bind, space, notFirst, ↓reduceIte, before, bne_self_eq_false,
      Bool.false_eq_true]
    rfl
  · simp only [bind, Except.bind, bne_iff_ne.mpr space, ↓reduceIte]
    rfl

private theorem findM?_eq_none {p : Nat → Except Fault Bool} {offsets : List Nat}
    (passed : ∀ offset ∈ offsets, p offset = .ok false) : offsets.findM? p = .ok none := by
  induction offsets with
  | nil => rfl
  | cons offset offsets ih =>
    rw [List.findM?, passed offset (by simp)]
    exact ih fun other member => passed other (by simp [member])

private theorem findM?_append {p : Nat → Except Fault Bool} {before after : List Nat}
    (passed : ∀ other ∈ before, p other = .ok false) (found : p offset = .ok true) :
    (before ++ offset :: after).findM? p = .ok (some offset) := by
  induction before with
  | nil =>
    rw [List.nil_append, List.findM?, found]
    rfl
  | cons other before ih =>
    rw [List.cons_append, List.findM?, passed other (by simp)]
    exact ih fun another member => passed another (by simp [member])

theorem separator?_token (isToken : IsToken token) : separator? token.bytes = .ok none := by
  apply findM?_eq_none
  intro offset member
  apply separates_of_not_parts (List.mem_range.mp member)
  exact fun front back parts => absurd parts isToken.not_parts

/-- The first separator among the bytes is the one behind the first token. -/
theorem separator?_append (isToken : IsToken token) (ends : token.getLast? ≠ some '\\') :
    separator? (Text.bytes (token ++ ' ' :: rest)) = .ok (some token.byteLength) := by
  have length : (Text.bytes (token ++ ' ' :: rest)).length =
      token.byteLength + (byteLength rest + 1) := by
    have size : byteLength (' ' :: rest) = 1 + byteLength rest := rfl
    rw [length_bytes, byteLength_append, size, Nat.add_comm 1]
  unfold separator?
  rw [length, List.range_add, List.range_succ_eq_map, List.map_cons, Nat.add_zero]
  apply findM?_append
  · intro offset member
    have before := List.mem_range.mp member
    apply separates_of_not_parts (by omega)
    intro front back parts
    rcases (parts_append_iff isToken ends).mp parts with ⟨rfl, -⟩ | ⟨inner, rfl, -⟩
    · omega
    · rw [byteLength_append]
      omega
  · exact separates_of_parts ⟨rfl, ends⟩

theorem next?_token (isToken : IsToken token) : next? (some token) = .ok (some (token, none)) := by
  simp only [next?, separator?_token isToken, bind, Except.bind]
  rfl

/-- A token is taken off with the space behind it. -/
theorem next?_append (isToken : IsToken token) (ends : token.getLast? ≠ some '\\') :
    next? (some (token ++ ' ' :: rest)) = .ok (some (token, some rest)) := by
  have behind := onward_append (token ++ [' ']) rest
  have size : byteLength (token ++ [' ']) = token.byteLength + 1 := byteLength_append token [' ']
  rw [List.append_assoc, List.singleton_append, size] at behind
  simp only [next?, separator?_append isToken ends, upTo_append, behind, bind, Except.bind]
  rfl

end Bytes

section Iteration
variable {left behind found : Option Text} {accepts : Text → Bool}

/-- The tokens that are taken off one after the other until nothing is left. -/
inductive Yields : (left : Option Text) → List Text → Prop where
  | done {left : Option Text} (empty : next? left = .ok none) : Yields left []
  | step {left rest : Option Text} {token : Text} {tokens : List Text}
      (taken : next? left = .ok (some (token, rest))) (later : Yields rest tokens) :
    Yields left (token :: tokens)

/-- The first token taken off that is accepted; no further one is asked for. -/
inductive Finds (accepts : Text → Bool) : (left found : Option Text) → Prop where
  | nothing {left : Option Text} (empty : next? left = .ok none) : Finds accepts left none
  | here {left rest : Option Text} {token : Text} (taken : next? left = .ok (some (token, rest)))
      (accepted : accepts token = true) : Finds accepts left (some token)
  | later {left rest found : Option Text} {token : Text}
      (taken : next? left = .ok (some (token, rest))) (refused : accepts token = false)
      (behind : Finds accepts rest found) : Finds accepts left found

theorem yields_tokens (text : Text) : Yields (some text) (tokens text) := by
  induction text using tokenInduction with
  | last token isToken =>
    rw [tokens_self isToken]
    exact .step (next?_token isToken) (.done rfl)
  | cut token rest isToken ends ih =>
    rw [tokens_append isToken ends]
    exact .step (next?_append isToken ends) ih

/-- Taking tokens off is no choice. -/
theorem Yields.unique {other : List Text} (yields : Yields left pieces)
    (others : Yields left other) : pieces = other := by
  induction yields generalizing other with
  | done empty =>
    cases others with
    | done => rfl
    | step taken => rw [empty] at taken; cases taken
  | step taken later ih =>
    cases others with
    | done empty => rw [taken] at empty; cases empty
    | step otherTaken otherLater =>
      rw [taken] at otherTaken
      cases otherTaken
      rw [ih otherLater]

section Search

theorem finds_of_done (empty : next? left = .ok none) :
    Finds accepts left found ↔ found = none := by
  constructor
  · intro finds
    cases finds with
    | nothing => rfl
    | here taken => rw [empty] at taken; cases taken
    | later taken => rw [empty] at taken; cases taken
  · rintro rfl
    exact .nothing empty

/-- The next token ends the search or is passed. -/
theorem finds_of_taken (taken : next? left = .ok (some (token, behind))) :
    Finds accepts left found ↔
      if accepts token = true then found = some token else Finds accepts behind found := by
  constructor
  · intro finds
    cases finds with
    | nothing empty => rw [taken] at empty; cases empty
    | here otherTaken accepted =>
      rw [taken] at otherTaken
      cases otherTaken
      rw [if_pos accepted]
    | later otherTaken refused finds =>
      rw [taken] at otherTaken
      cases otherTaken
      rw [if_neg (by simp [refused])]
      exact finds
  · split
    · next accepted =>
      rintro rfl
      exact .here taken accepted
    · next refused => exact .later taken (by simpa using refused)

/-- The search ends at the first accepted one of the tokens that iterating yields. -/
theorem Yields.finds_iff (yields : Yields left pieces) :
    Finds accepts left found ↔ found = pieces.find? accepts := by
  induction yields with
  | done empty => exact finds_of_done empty
  | @step _ _ token _ taken _ ih =>
    rw [finds_of_taken taken, ih]
    split
    · next accepted => rw [List.find?_cons_of_pos accepted]
    · next refused => rw [List.find?_cons_of_neg refused]

end Search

end Iteration

/-- Iterating ends with the only pieces that spaces following no backslash join to the text, one
more than it has of these spaces and each between two of them, and the search for a directive
stops at the first that a registered keyword and an equals sign begin. -/
theorem tokens_lossless (text : Text) (prefixes : Prefixes) :
    (∀ pieces, Yields (some text) pieces ↔ pieces = tokens text) ∧
    (∀ pieces, Tokenised text pieces ↔ pieces = tokens text) ∧
    tokens text = piecesFrom text 0 (separators text) ∧
    (tokens text).length = (separators text).length + 1 ∧
    (∀ found, Finds (fun token => (prefixes.strip? token).isSome) (some text) found ↔
      found = directiveToken? text prefixes) ∧
    (∀ token, directiveToken? text prefixes = some token ↔
      ∃ before after, tokens text = before ++ token :: after ∧ prefixes.Names token ∧
        ∀ earlier ∈ before, ¬ prefixes.Names earlier) ∧
    (directiveToken? text prefixes = none ↔ ∀ token ∈ tokens text, ¬ prefixes.Names token) := by
  have yields := yields_tokens text
  refine ⟨fun pieces => ⟨fun others => others.unique yields, fun same => same ▸ yields⟩,
    fun pieces => tokenised_iff, tokens_eq_pieces text, ?_, fun found => yields.finds_iff,
    fun token => directiveToken?_eq_some_iff, directiveToken?_eq_none_iff⟩
  rw [tokens_eq_pieces, length_piecesFrom]

end Transclusion.Meta
