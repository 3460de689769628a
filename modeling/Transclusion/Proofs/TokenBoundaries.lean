import Transclusion.Proofs.DirectiveTokens

/-! Where tokens end. A text is parted at its spaces that follow no backslash. Behind the first
of them it is parted as the whole is, since that space is no backslash itself; so the tokens are
the pieces between these spaces, and no other pieces can be joined to the text. -/
namespace Transclusion.Meta
variable {text token rest front back : Text} {pieces : List Text} {position : Nat}

/-- A space between two parts of a text that follows no backslash. -/
def Parts (text front back : Text) : Prop :=
  text = front ++ ' ' :: back ∧ front.getLast? ≠ some '\\'

/-- No space inside a token parts it. -/
theorem IsToken.not_parts (isToken : IsToken token) : ¬ Parts token front back := by
  rintro ⟨rfl, escaped⟩
  cases last : front.getLast? with
  | none =>
    have start := isToken.start
    rw [List.getLast?_eq_none_iff.mp last] at start
    exact start rfl
  | some c =>
    have adjoin := (List.isChain_append.mp isToken.spaces).2.2 c last ' ' rfl
    rw [last, adjoin rfl] at escaped
    exact escaped rfl

/-- A text is parted behind its first token as the whole is: the space the token was cut off at
is no backslash. -/
theorem parts_append_iff (isToken : IsToken token) (ends : token.getLast? ≠ some '\\') :
    Parts (token ++ ' ' :: rest) front back ↔
      front = token ∧ back = rest ∨ ∃ inner, front = token ++ ' ' :: inner ∧ Parts rest inner back := by
  have sameEnd : ∀ inner : Text,
      (token ++ ' ' :: inner).getLast? = some '\\' ↔ inner.getLast? = some '\\' := by
    intro inner
    cases inner with
    | nil => simp
    | cons c inner => simp [List.getLast?_append, List.getLast?_cons]
  constructor
  · rintro ⟨whole, notEscaped⟩
    rcases List.append_eq_append_iff.mp whole with ⟨more, rfl, split⟩ | ⟨more, rfl, split⟩
    · cases more with
      | nil => exact Or.inl ⟨by simp, (List.cons.inj split).2.symm⟩
      | cons c inner =>
        obtain ⟨rfl, rfl⟩ := List.cons.inj split
        exact Or.inr ⟨inner, rfl, rfl, fun last => notEscaped ((sameEnd inner).mpr last)⟩
    · cases more with
      | nil => exact Or.inl ⟨by simp, (List.cons.inj split).2⟩
      | cons c inner =>
        obtain ⟨rfl, -⟩ := List.cons.inj split
        exact absurd ⟨rfl, notEscaped⟩ isToken.not_parts
  · rintro (⟨rfl, rfl⟩ | ⟨inner, rfl, rfl, notEscaped⟩)
    · exact ⟨rfl, ends⟩
    · exact ⟨by simp, fun last => notEscaped ((sameEnd inner).mp last)⟩

/-- The first space that follows no backslash is found character by character. -/
private theorem chain_or_parts (c : Char) (text : Text) :
    (c :: text).IsChain Adjoin ∨ ∃ token rest, text = token ++ ' ' :: rest ∧
      (c :: token).IsChain Adjoin ∧ (c :: token).getLast? ≠ some '\\' := by
  induction text generalizing c with
  | nil => exact Or.inl (.singleton c)
  | cons d text ih =>
    by_cases adjoin : Adjoin c d
    · rcases ih d with chain | ⟨token, rest, rfl, chain, ends⟩
      · exact Or.inl (List.isChain_cons_cons.mpr ⟨adjoin, chain⟩)
      · refine Or.inr ⟨d :: token, rest, rfl, List.isChain_cons_cons.mpr ⟨adjoin, chain⟩, ?_⟩
        simpa using ends
    · obtain ⟨rfl, other⟩ : d = ' ' ∧ c ≠ '\\' := by simpa [Adjoin] using adjoin
      exact Or.inr ⟨[], text, rfl, .singleton c, by simpa using other⟩

/-- A text is a token, or one stands in front of a space that it leaves to separate. -/
theorem isToken_or_parts (text : Text) :
    IsToken text ∨ ∃ token rest, IsToken token ∧ token.getLast? ≠ some '\\' ∧
      text = token ++ ' ' :: rest := by
  -- an equals sign in front is as good as none: it is no backslash
  have ofChain : ∀ {token : Text}, ('=' :: token).IsChain Adjoin → IsToken token := by
    intro token chain
    cases token with
    | nil => exact ⟨by simp, .nil⟩
    | cons d token =>
      obtain ⟨adjoin, spaces⟩ := List.isChain_cons_cons.mp chain
      refine ⟨fun space => ?_, spaces⟩
      exact absurd (adjoin (by simpa using space)) (by decide)
  rcases chain_or_parts '=' text with chain | ⟨token, rest, rfl, chain, ends⟩
  · exact Or.inl (ofChain chain)
  · refine Or.inr ⟨token, rest, ofChain chain, ?_, rfl⟩
    intro last
    rw [List.getLast?_cons, last] at ends
    exact ends rfl

/-- What holds of a token, and of one in front of any text it holds of, holds of every text. -/
@[elab_as_elim]
theorem tokenInduction {motive : Text → Prop} (last : ∀ token, IsToken token → motive token)
    (cut : ∀ token rest, IsToken token → token.getLast? ≠ some '\\' → motive rest →
      motive (token ++ ' ' :: rest)) (text : Text) : motive text := by
  rcases isToken_or_parts text with isToken | ⟨token, rest, isToken, ends, whole⟩
  · exact last text isToken
  · have shorter : rest.length < text.length := by
      rw [whole, List.length_append, List.length_cons]
      omega
    have behind : motive rest := tokenInduction last cut rest
    rw [whole]
    exact cut token rest isToken ends behind
termination_by text.length

/-- Pieces that a text is joined of by spaces that follow no backslash, while every space inside
a piece does follow one. -/
structure Tokenised (text : Text) (pieces : List Text) : Prop where
  nonempty : pieces ≠ []
  joined : Text.joinWith ' ' pieces = text
  within : ∀ piece ∈ pieces, IsToken piece
  between : ∀ piece ∈ pieces.dropLast, piece.getLast? ≠ some '\\'

theorem tokenised_tokens (text : Text) : Tokenised text (tokens text) := by
  induction text using tokenInduction with
  | last token isToken =>
    rw [tokens_self isToken]
    exact ⟨by simp, rfl, by simpa using isToken, by simp⟩
  | cut token rest isToken ends ih =>
    rw [tokens_append isToken ends]
    obtain ⟨next, more, found⟩ := List.exists_cons_of_ne_nil ih.nonempty
    refine ⟨by simp, ?_, ?_, ?_⟩
    · have joined := ih.joined
      rw [found] at joined ⊢
      rw [Text.joinWith, joined]
    · exact List.forall_mem_cons.mpr ⟨isToken, ih.within⟩
    · rw [List.dropLast_cons_of_ne_nil ih.nonempty]
      exact List.forall_mem_cons.mpr ⟨ends, ih.between⟩

/-- No other pieces are joined to the text. -/
theorem Tokenised.eq_tokens (tokenised : Tokenised text pieces) : pieces = tokens text := by
  induction pieces generalizing text with
  | nil => exact absurd rfl tokenised.nonempty
  | cons piece pieces ih =>
    obtain rfl := tokenised.joined
    have isToken := tokenised.within piece (by simp)
    cases pieces with
    | nil => exact (tokens_self isToken).symm
    | cons next more =>
      have ends := tokenised.between piece (by simp)
      have behind : Tokenised (Text.joinWith ' ' (next :: more)) (next :: more) :=
        ⟨by simp, rfl, fun other member => tokenised.within other (by simp [member]),
          fun other member => tokenised.between other (by simp [member])⟩
      rw [Text.joinWith, tokens_append isToken ends, ← ih behind]

theorem tokenised_iff : Tokenised text pieces ↔ pieces = tokens text :=
  ⟨Tokenised.eq_tokens, fun same => same ▸ tokenised_tokens text⟩

section Positions

/-- Whether a space that follows no backslash stands at a position of a text. -/
def partsAt (text : Text) (position : Nat) : Bool :=
  text[position]? = some ' ' && (position = 0 || text[position - 1]? ≠ some '\\')

/-- The positions of these spaces, in order. -/
def separators (text : Text) : List Nat := (List.range text.length).filter (partsAt text)

/-- The pieces of a text from a position on, between the characters at some later ones. -/
def piecesFrom (text : Text) (start : Nat) : List Nat → List Text
  | [] => [text.drop start]
  | cut :: cuts => (text.take cut).drop start :: piecesFrom text (cut + 1) cuts

theorem partsAt_iff :
    partsAt text position = true ↔ ∃ front back, Parts text front back ∧ front.length = position := by
  constructor
  · intro found
    simp only [partsAt, Bool.and_eq_true, Bool.or_eq_true, decide_eq_true_eq] at found
    obtain ⟨space, notEscaped⟩ := found
    obtain ⟨inside, isSpace⟩ := List.getElem?_eq_some_iff.mp space
    refine ⟨text.take position, text.drop (position + 1), ⟨?_, ?_⟩, by simp [Nat.le_of_lt inside]⟩
    · rw [← isSpace, List.getElem_cons_drop, List.take_append_drop]
    · rw [List.getLast?_take]
      split
      · simp
      · next positive =>
        have before : position - 1 < text.length := by omega
        have other := notEscaped.resolve_left positive
        rw [List.getElem?_eq_getElem before] at other ⊢
        exact other
  · rintro ⟨front, back, ⟨rfl, ends⟩, rfl⟩
    have space : (front ++ ' ' :: back)[front.length]? = some ' ' := by simp
    have notEscaped : front.length = 0 ∨ (front ++ ' ' :: back)[front.length - 1]? ≠ some '\\' := by
      by_cases empty : front.length = 0
      · exact Or.inl empty
      · rw [List.getElem?_append_left (by omega), ← List.getLast?_eq_getElem?]
        exact Or.inr ends
    simp only [partsAt, Bool.and_eq_true, Bool.or_eq_true, decide_eq_true_eq]
    exact ⟨space, notEscaped⟩

theorem separators_token (isToken : IsToken token) : separators token = [] := by
  refine List.filter_eq_nil_iff.mpr fun position _ found => ?_
  obtain ⟨front, back, parts, -⟩ := partsAt_iff.mp found
  exact isToken.not_parts parts

section Behind
variable (isToken : IsToken token) (ends : token.getLast? ≠ some '\\')
include isToken ends

theorem not_partsAt_inside (inside : position < token.length) :
    ¬ partsAt (token ++ ' ' :: rest) position = true := by
  intro found
  obtain ⟨front, back, parts, rfl⟩ := partsAt_iff.mp found
  rcases (parts_append_iff isToken ends).mp parts with ⟨rfl, -⟩ | ⟨inner, rfl, -⟩
  · exact Nat.lt_irrefl _ inside
  · simp only [List.length_append] at inside
    omega

theorem partsAt_behind :
    partsAt (token ++ ' ' :: rest) (token.length + (position + 1)) = partsAt rest position := by
  apply Bool.eq_iff_iff.mpr
  rw [partsAt_iff, partsAt_iff]
  constructor
  · rintro ⟨front, back, parts, length⟩
    rcases (parts_append_iff isToken ends).mp parts with ⟨rfl, -⟩ | ⟨inner, rfl, partsRest⟩
    · omega
    · simp only [List.length_append, List.length_cons] at length
      exact ⟨inner, back, partsRest, by omega⟩
  · rintro ⟨inner, back, partsRest, rfl⟩
    refine ⟨token ++ ' ' :: inner, back, ?_, by simp⟩
    exact (parts_append_iff isToken ends).mpr (Or.inr ⟨inner, rfl, partsRest⟩)

/-- The first separator stands behind the first token, and the others where the rest has them. -/
theorem separators_append :
    separators (token ++ ' ' :: rest) =
      token.length :: (separators rest).map (token.length + 1 + ·) := by
  have inside : ∀ position ∈ List.range token.length,
      ¬ partsAt (token ++ ' ' :: rest) position = true :=
    fun position member => not_partsAt_inside isToken ends (List.mem_range.mp member)
  have here : partsAt (token ++ ' ' :: rest) token.length = true :=
    partsAt_iff.mpr ⟨token, rest, ⟨rfl, ends⟩, rfl⟩
  have behind : partsAt (token ++ ' ' :: rest) ∘ ((token.length + ·) ∘ Nat.succ) = partsAt rest :=
    funext fun position => partsAt_behind isToken ends
  unfold separators
  rw [List.length_append, List.length_cons, List.range_add, List.range_succ_eq_map,
    List.filter_append, List.filter_eq_nil_iff.mpr inside, List.map_cons, List.nil_append,
    Nat.add_zero, List.filter_cons_of_pos here, List.map_map, List.filter_map, behind]
  congr 1
  exact List.map_congr_left fun position _ => by simp only [Function.comp_apply]; omega

end Behind

/-- Pieces behind a front are those of what follows it. -/
theorem piecesFrom_append (front rest : Text) (start : Nat) (cuts : List Nat) :
    piecesFrom (front ++ rest) (front.length + start) (cuts.map (front.length + ·)) =
      piecesFrom rest start cuts := by
  induction cuts generalizing start with
  | nil => simp [piecesFrom]
  | cons cut cuts ih =>
    have later := ih (cut + 1)
    rw [← Nat.add_assoc] at later
    rw [List.map_cons, piecesFrom, piecesFrom, later, List.take_length_add_append,
      List.drop_length_add_append]

theorem length_piecesFrom (text : Text) (start : Nat) (cuts : List Nat) :
    (piecesFrom text start cuts).length = cuts.length + 1 := by
  induction cuts generalizing start with
  | nil => rfl
  | cons cut cuts ih => rw [piecesFrom, List.length_cons, ih, List.length_cons]

/-- The tokens stand between the spaces that no backslash precedes in the whole text. -/
theorem tokens_eq_pieces (text : Text) : tokens text = piecesFrom text 0 (separators text) := by
  induction text using tokenInduction with
  | last token isToken =>
    rw [tokens_self isToken, separators_token isToken]
    rfl
  | cut token rest isToken ends ih =>
    have behind := piecesFrom_append (token ++ [' ']) rest 0 (separators rest)
    simp only [List.length_append, List.length_singleton, List.append_assoc, List.singleton_append,
      Nat.add_zero] at behind
    rw [tokens_append isToken ends, separators_append isToken ends, piecesFrom, behind, ← ih,
      List.take_left, List.drop_zero]

example : separators "a\\ b  c".toList = [4, 5] ∧
    tokens "a\\ b  c".toList = ["a\\ b".toList, [], "c".toList] := by decide

end Positions

section Directives
variable {prefixes : Prefixes}

/-- The directive is the first token that a registered keyword and an equals sign begin. -/
theorem directiveToken?_eq_some_iff : directiveToken? text prefixes = some token ↔
    ∃ before after, tokens text = before ++ token :: after ∧ prefixes.Names token ∧
      ∀ earlier ∈ before, ¬ prefixes.Names earlier := by
  rw [directiveToken?, List.find?_eq_some_iff_append, Prefixes.isSome_strip?_iff]
  simp only [Bool.not_eq_eq_eq_not, Bool.not_true, Bool.eq_false_iff, ne_eq,
    Prefixes.isSome_strip?_iff]
  constructor
  · rintro ⟨names, before, after, split, earlier⟩
    exact ⟨before, after, split, names, earlier⟩
  · rintro ⟨before, after, split, names, earlier⟩
    exact ⟨names, before, after, split, earlier⟩

theorem directiveToken?_eq_none_iff : directiveToken? text prefixes = none ↔
    ∀ token ∈ tokens text, ¬ prefixes.Names token := by
  rw [directiveToken?, List.find?_eq_none]
  simp only [Prefixes.isSome_strip?_iff]

end Directives

end Transclusion.Meta
