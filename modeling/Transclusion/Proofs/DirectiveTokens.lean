import Mathlib.Data.List.Chain
import Transclusion.Meta

/-! The words behind the language of a code block. A keyword is known by the first equals
sign of a token, a token ends at the first space that follows no backslash; so a token that
stands among others, joined to them by single spaces, is found again as it is. -/
namespace Transclusion

/-- Two texts are cut alike at the first of their separators. -/
theorem Text.append_cons_inj {sep : Char} {front other rest more : Text} (free : sep ∉ front)
    (otherFree : sep ∉ other) :
    front ++ sep :: rest = other ++ sep :: more ↔ front = other ∧ rest = more := by
  induction front generalizing other with
  | nil =>
    cases other with
    | nil => simp
    | cons c other =>
      have differs : c ≠ sep := fun same => otherFree (by simp [same])
      simp [Ne.symm differs]
  | cons c front ih =>
    simp only [List.mem_cons, not_or] at free
    cases other with
    | nil => simp [Ne.symm free.1]
    | cons d other =>
      simp only [List.mem_cons, not_or] at otherFree
      simp [ih free.2 otherFree.2, and_assoc]

namespace Prefixes
variable {prefixes : Prefixes} {keyword : Text} {kind : SourceKind}

/-- The kind a keyword is registered with. -/
def kind? (prefixes : Prefixes) (keyword : Text) : Option SourceKind :=
  (prefixes.entries.find? (·.1 = keyword)).map (·.2)

/-- A keyword has the kind of its last registration. -/
theorem kind?_register (prefixes : Prefixes) (keyword : Text) (kind : SourceKind) (asked : Text) :
    (prefixes.register keyword kind).kind? asked =
      if asked = keyword then some kind else prefixes.kind? asked := by
  unfold kind? register
  rw [List.find?_append]
  split
  · next same =>
    subst same
    have gone : (prefixes.entries.filter (·.1 ≠ asked)).find? (·.1 = asked) = none := by
      refine List.find?_eq_none.mpr fun entry member => ?_
      simpa using (List.mem_filter.mp member).2
    rw [gone, Option.none_or, List.find?_cons_of_pos (by simp)]
    rfl
  · next other =>
    have kept : (prefixes.entries.filter (·.1 ≠ keyword)).find? (·.1 = asked) =
        prefixes.entries.find? (·.1 = asked) := by
      rw [List.find?_filter]
      congr 1
      funext entry
      by_cases found : entry.1 = asked
      · simp [found, other]
      · simp [found]
    rw [kept, List.find?_cons_of_neg (by simpa using Ne.symm other), List.find?_nil,
      Option.or_none]

theorem mem_keywords_of_kind? (registered : prefixes.kind? keyword = some kind) :
    keyword ∈ prefixes.keywords := by
  obtain ⟨entry, found, -⟩ := Option.map_eq_some_iff.mp registered
  have same : entry.1 = keyword := by simpa using List.find?_some found
  exact same ▸ List.mem_map_of_mem (List.mem_of_find?_eq_some found)

theorem afterKeyword?_eq_some_iff {token rest : Text} :
    afterKeyword? keyword token = some rest ↔ token = keyword ++ '=' :: rest := by
  simp only [afterKeyword?, Option.bind_eq_some_iff, Text.stripPrefix?_eq_some_iff]
  constructor
  · rintro ⟨_, rfl, rfl⟩
    rfl
  · rintro rfl
    exact ⟨_, rfl, rfl⟩

/-- Behind a keyword and its equals sign the kind of that keyword is found, however the
registered keywords begin. -/
theorem strip?_append (words : ∀ word ∈ prefixes.keywords, '=' ∉ word) (free : '=' ∉ keyword)
    (rest : Text) :
    prefixes.strip? (keyword ++ '=' :: rest) =
      (prefixes.kind? keyword).map fun kind => (kind, rest) := by
  obtain ⟨entries⟩ := prefixes
  unfold strip? kind?
  dsimp only
  induction entries with
  | nil => rfl
  | cons entry entries ih =>
    obtain ⟨word, kind⟩ := entry
    have later := ih fun other member => words other (List.mem_cons_of_mem word member)
    by_cases same : word = keyword
    · subst same
      simp [afterKeyword?_eq_some_iff.mpr rfl]
    · have other : afterKeyword? word (keyword ++ '=' :: rest) = none := by
        cases after : afterKeyword? word (keyword ++ '=' :: rest) with
        | none => rfl
        | some behind =>
          have wordFree : '=' ∉ word := words word List.mem_cons_self
          have cut := afterKeyword?_eq_some_iff.mp after
          exact absurd ((Text.append_cons_inj free wordFree).mp cut).1.symm same
      rw [List.findSome?_cons, other, List.find?_cons_of_neg (by simpa using same)]
      exact later

/-- A token has a registered keyword in front of an equals sign. -/
def Names (prefixes : Prefixes) (token : Text) : Prop :=
  ∃ keyword ∈ prefixes.keywords, ∃ rest, token = keyword ++ '=' :: rest

/-- Only a registered keyword is stripped. -/
theorem isSome_strip?_iff {token : Text} :
    (prefixes.strip? token).isSome = true ↔ prefixes.Names token := by
  unfold strip? Names
  rw [List.findSome?_isSome_iff]
  simp only [Option.isSome_map, Option.isSome_iff_exists, afterKeyword?_eq_some_iff, keywords,
    List.mem_map]
  constructor
  · rintro ⟨entry, member, rest, whole⟩
    exact ⟨entry.1, ⟨entry, member, rfl⟩, rest, whole⟩
  · rintro ⟨_, ⟨entry, member, rfl⟩, rest, whole⟩
    exact ⟨entry, member, rest, whole⟩

theorem strip?_eq_none {token : Text}
    (others : ∀ word ∈ prefixes.keywords, ¬ word ++ ['='] <+: token) :
    prefixes.strip? token = none := by
  rw [← Option.not_isSome_iff_eq_none, isSome_strip?_iff]
  rintro ⟨word, member, rest, rfl⟩
  exact others word member ⟨rest, by simp⟩

end Prefixes

namespace Meta

/-- Two characters may stand next to each other in a token: a space follows a backslash. -/
def Adjoin (before c : Char) : Prop := c = ' ' → before = '\\'

/-- A text without a space that separates tokens. -/
structure IsToken (text : Text) : Prop where
  start : text.head? ≠ some ' '
  spaces : text.IsChain Adjoin

instance (before c : Char) : Decidable (Adjoin before c) :=
  inferInstanceAs (Decidable (c = ' ' → before = '\\'))

instance (text : Text) : Decidable (IsToken text) :=
  decidable_of_iff (text.head? ≠ some ' ' ∧ text.IsChain Adjoin)
    ⟨fun ⟨start, spaces⟩ => ⟨start, spaces⟩, fun isToken => ⟨isToken.start, isToken.spaces⟩⟩

section Tokens
variable {c : Char} {token rest : Text}

/-- A token goes on to the first space that follows no backslash. -/
theorem tokensAfter_append (chain : (c :: token).IsChain Adjoin)
    (ends : (c :: token).getLast? ≠ some '\\') :
    tokensAfter (c = '\\') (token ++ ' ' :: rest) = token :: tokensAfter false rest := by
  induction token generalizing c with
  | nil =>
    have notEscaped : c ≠ '\\' := by simpa using ends
    simp [tokensAfter, notEscaped]
  | cons d token ih =>
    obtain ⟨adjoin, later⟩ := List.isChain_cons_cons.mp chain
    rw [List.cons_append, tokensAfter, if_neg (by simpa [Adjoin] using adjoin),
      ih later (by simpa using ends)]

theorem tokensAfter_self (chain : (c :: token).IsChain Adjoin) :
    tokensAfter (c = '\\') token = [token] := by
  induction token generalizing c with
  | nil => rfl
  | cons d token ih =>
    obtain ⟨adjoin, later⟩ := List.isChain_cons_cons.mp chain
    rw [tokensAfter, if_neg (by simpa [Adjoin] using adjoin), ih later]

/-- A token behind a character that is no backslash. -/
theorem IsToken.chain (isToken : IsToken token) : ('=' :: token).IsChain Adjoin := by
  cases token with
  | nil => exact .singleton _
  | cons d token =>
    refine List.isChain_cons_cons.mpr ⟨?_, isToken.spaces⟩
    rintro rfl
    exact absurd rfl isToken.start

theorem tokens_self (isToken : IsToken token) : tokens token = [token] :=
  tokensAfter_self isToken.chain

theorem tokens_append (isToken : IsToken token) (ends : token.getLast? ≠ some '\\') :
    tokens (token ++ ' ' :: rest) = token :: tokens rest := by
  refine tokensAfter_append isToken.chain ?_
  cases token with
  | nil => simp
  | cons d token => simpa using ends

end Tokens

/-- Tokens joined by single spaces are found again, up to the first that takes the space
behind it for its own. -/
theorem exists_tokens {before : List Text} {token : Text} (after : List Text)
    (each : ∀ earlier ∈ before, IsToken earlier ∧ earlier.getLast? ≠ some '\\')
    (isToken : IsToken token) (ends : token.getLast? ≠ some '\\') :
    ∃ more, tokens (Text.joinWith ' ' (before ++ token :: after)) = before ++ token :: more := by
  induction before with
  | nil =>
    cases after with
    | nil => exact ⟨[], tokens_self isToken⟩
    | cons next after => exact ⟨_, tokens_append isToken ends⟩
  | cons first before ih =>
    obtain ⟨firstToken, firstEnds⟩ := each first (by simp)
    obtain ⟨more, found⟩ := ih fun earlier member => each earlier (by simp [member])
    refine ⟨more, ?_⟩
    obtain ⟨next, others, split⟩ : ∃ next others, before ++ token :: after = next :: others :=
      List.exists_cons_of_ne_nil (by simp)
    rw [List.cons_append, split, Text.joinWith, tokens_append firstToken firstEnds, ← split, found]
    rfl

end Meta

end Transclusion
