import Mathlib.Data.List.Basic
import Transclusion.Directive
import Transclusion.Proofs.DirectiveTokens
import Transclusion.Proofs.FragmentGrammar

/-! Directives as they are written. A locator is written with a backslash before each of its
spaces, a range as the fragment behind it; what was written is found again among the other
words of a code block and read back as it was, whatever characters the locator is made of. -/
namespace Transclusion

namespace Text

theorem cutLast?_eq_none {sep : Char} {text : Text} (free : sep ∉ text) :
    cutLast? sep text = none := by
  cases cut : cutLast? sep text with
  | none => rfl
  | some parts =>
    have whole := (cutLast?_eq_some cut).1
    exact absurd (by simp [whole]) free

/-- The last cut is made in front of what holds no separator. -/
theorem cutLast?_append {sep : Char} {back : Text} (front : Text) (free : sep ∉ back) :
    cutLast? sep (front ++ sep :: back) = some (front, back) := by
  induction front with
  | nil => simp [cutLast?, cutLast?_eq_none free]
  | cons c front ih => simp [cutLast?, ih]

theorem ofNat_ne_nil (n : Nat) : ofNat n ≠ [] := Nat.toDigits_ne_nil

theorem isDigit_of_mem_ofNat {n : Nat} {c : Char} (member : c ∈ ofNat n) : c.isDigit = true :=
  Nat.isDigit_of_mem_toDigits (by decide) (by decide) member

/-- The decimal notation of a number has its value. -/
theorem decimal_ofNat (n : Nat) : decimal (ofNat n) = n :=
  Nat.ofDigitChars_toDigits (by decide) (by decide)

end Text

namespace LineRange

/-- The fragment a range is written as; the whole source has none. -/
def fragment? : LineRange → Option Text
  | whole => none
  | single line => some ('L' :: Text.ofNat line)
  | onward first => some ('L' :: (Text.ofNat first ++ ['-']))
  | closed first last => some ('L' :: (Text.ofNat first ++ '-' :: 'L' :: Text.ofNat last))

/-- What is written behind the locator. -/
def written (range : LineRange) : Text := range.fragment?.elim [] ('#' :: ·)

theorem written_cases (range : LineRange) :
    range = whole ∧ range.written = [] ∨
      ∃ fragment, range.fragment? = some fragment ∧ range.written = '#' :: fragment := by
  cases range with
  | whole => exact Or.inl ⟨rfl, rfl⟩
  | single _ | onward _ | closed _ _ => exact Or.inr ⟨_, rfl, rfl⟩

/-- The lines a range names are numbers that can be read. -/
def InBounds : LineRange → Prop
  | whole => True
  | single line | onward line => 1 ≤ line ∧ line ≤ Fragment.maxLine
  | closed first last =>
    (1 ≤ first ∧ first ≤ Fragment.maxLine) ∧ 1 ≤ last ∧ last ≤ Fragment.maxLine

end LineRange

namespace Fragment
open Text

theorem lineNumber_ofNat {n : Nat} (bound : n ≤ maxLine) : lineNumber (ofNat n) = n := by
  rw [lineNumber, decimal_ofNat, Nat.min_eq_left bound]

/-- A fragment starts with the number in front of it. -/
theorem read_ofNat (n : Nat) {rest : Text} (stops : rest.head?.all (!Char.isDigit ·)) :
    read ('L' :: (ofNat n ++ rest)) = (rangeFrom (ofNat n) rest).map some :=
  read_numeral ⟨ofNat_ne_nil n, fun _ => isDigit_of_mem_ofNat⟩ stops

/-- A written range is read back. -/
theorem read_fragment? {range : LineRange} {fragment : Text} (bounds : range.InBounds)
    (written : range.fragment? = some fragment) : read fragment = .ok (some range) := by
  cases range with
  | whole => cases written
  | single line =>
    cases written
    have found : read ('L' :: (ofNat line ++ [])) = _ := read_ofNat line rfl
    rw [List.append_nil] at found
    simp [found, rangeFrom, lineNumber_ofNat bounds.2, Nat.max_eq_left bounds.1, Except.map]
  | onward first =>
    cases written
    rw [read_ofNat first rfl]
    simp [rangeFrom, lineNumber_ofNat bounds.2, Nat.max_eq_left bounds.1, Except.map]
  | closed first last =>
    cases written
    obtain ⟨firstBounds, lastPositive, lastBound⟩ := bounds
    have digits : (ofNat last).all Char.isDigit = true :=
      List.all_eq_true.mpr fun _ => isDigit_of_mem_ofNat
    have nonempty : (ofNat last).isEmpty = false := by simp [ofNat_ne_nil]
    obtain ⟨n, rfl⟩ : ∃ n, last = n + 1 := ⟨last - 1, by omega⟩
    rw [read_ofNat first rfl]
    simp [rangeFrom, lineNumber_ofNat firstBounds.2, Nat.max_eq_left firstBounds.1, digits,
      nonempty, lineNumber_ofNat lastBound, Except.map]

/-- A written range holds no character that a directive is cut at, and ends in none that
escapes a space. -/
theorem fragment?_plain {range : LineRange} {fragment : Text}
    (written : range.fragment? = some fragment) :
    '#' ∉ fragment ∧ ' ' ∉ fragment ∧ fragment.getLast? ≠ some '\\' := by
  have free : ∀ (c : Char), c.isDigit = false → ∀ n, c ∉ ofNat n := by
    intro c notDigit n member
    rw [isDigit_of_mem_ofNat member] at notDigit
    cases notDigit
  have last : ∀ (front : Text) (n : Nat), (front ++ ofNat n).getLast? ≠ some '\\' := by
    intro front n ends
    rw [List.getLast?_append_of_ne_nil _ (ofNat_ne_nil n)] at ends
    exact free '\\' (by decide) n (List.mem_of_getLast? ends)
  cases range with
  | whole => cases written
  | single line =>
    cases written
    exact ⟨by simp [free], by simp [free], last ['L'] line⟩
  | onward first =>
    cases written
    refine ⟨by simp [free], by simp [free], ?_⟩
    rw [← List.cons_append, List.getLast?_concat]
    decide
  | closed first final =>
    cases written
    refine ⟨by simp [free], by simp [free], ?_⟩
    simpa using last ('L' :: (ofNat first ++ ['-', 'L'])) final

end Fragment

namespace Directive
open Text

/-- Puts a backslash before every space. -/
def escape : Text → Text
  | [] => []
  | c :: rest => if c = ' ' then '\\' :: ' ' :: escape rest else c :: escape rest

/-- How a directive is written with a keyword. -/
def written (keyword : Text) (directive : Directive) : Text :=
  keyword ++ '=' :: (escape directive.locator ++ directive.range.written)

/-- A directive that can be written: its locator is no placeholder, and a directive for a
whole source has nothing in its locator that could be taken for a range or for the start of
an escaped space behind it. -/
structure Writable (directive : Directive) : Prop where
  named : directive.locator ≠ []
  plain : ¬ rootPlaceholder <+: directive.locator
  bounds : directive.range.InBounds
  unranged : directive.range = .whole →
    '#' ∉ directive.locator ∧ directive.locator.getLast? ≠ some '\\'

section Escaping
variable {text : Text}

theorem unescape_cons {c : Char} (other : c ≠ '\\') (rest : Text) :
    unescape (c :: rest) = c :: unescape rest := by
  conv => lhs; unfold unescape
  split
  · next same => exact absurd (List.cons.inj same).1 other
  · next same => rw [(List.cons.inj same).1, (List.cons.inj same).2]
  · next none => cases none

/-- A backslash that is no space's stays. -/
theorem unescape_backslash {rest : Text} (other : rest.head? ≠ some ' ') :
    unescape ('\\' :: rest) = '\\' :: unescape rest := by
  conv => lhs; unfold unescape
  split
  · next more same =>
    rw [(List.cons.inj same).2] at other
    exact absurd rfl other
  · next same => rw [← (List.cons.inj same).1, ← (List.cons.inj same).2]
  · next none => cases none

/-- No escaped text starts with a space. -/
theorem head?_escape (text : Text) : (escape text).head? ≠ some ' ' := by
  cases text with
  | nil => simp [escape]
  | cons c rest =>
    by_cases space : c = ' '
    · simp [escape, space]
    · simp [escape, space]

/-- Escaping is undone exactly, also behind a backslash of the text itself. -/
theorem unescape_escape (text : Text) : unescape (escape text) = text := by
  induction text with
  | nil => rfl
  | cons c rest ih =>
    by_cases space : c = ' '
    · simp [escape, space, unescape, ih]
    · rw [escape, if_neg space]
      by_cases backslash : c = '\\'
      · rw [backslash, unescape_backslash (head?_escape rest), ih]
      · rw [unescape_cons backslash, ih]

theorem mem_escape {c : Char} (member : c ∈ escape text) : c = '\\' ∨ c ∈ text := by
  induction text with
  | nil => cases member
  | cons d rest ih =>
    unfold escape at member
    split at member
    · next space =>
      rcases List.mem_cons.mp member with rfl | member
      · exact Or.inl rfl
      rcases List.mem_cons.mp member with rfl | later
      · exact Or.inr (by simp [space])
      · exact (ih later).imp_right (List.mem_cons_of_mem d)
    · rcases List.mem_cons.mp member with rfl | later
      · exact Or.inr (by simp)
      · exact (ih later).imp_right (List.mem_cons_of_mem d)

/-- An escaped text ends as the text does. -/
theorem getLast?_escape (text : Text) : (escape text).getLast? = text.getLast? := by
  induction text with
  | nil => rfl
  | cons c rest ih =>
    unfold escape
    split
    · next space => simp [List.getLast?_cons, ih, space]
    · simp [List.getLast?_cons, ih]

/-- What an escaped text starts with, if it holds neither spaces nor backslashes, the text
starts with. -/
theorem isPrefix_of_escape {lead : Text} (plain : ' ' ∉ lead ∧ '\\' ∉ lead)
    (starts : lead <+: escape text) : lead <+: text := by
  induction lead generalizing text with
  | nil => exact List.nil_prefix
  | cons l lead ih =>
    simp only [List.mem_cons, not_or] at plain
    cases text with
    | nil => exact absurd (List.prefix_nil.mp starts) (by simp)
    | cons c rest =>
      unfold escape at starts
      split at starts
      · exact absurd (List.cons_prefix_cons.mp starts).1 (Ne.symm plain.2.1)
      · obtain ⟨same, more⟩ := List.cons_prefix_cons.mp starts
        exact List.cons_prefix_cons.mpr ⟨same, ih ⟨plain.1.2, plain.2.2⟩ more⟩

open Meta

theorem isChain_free {c : Char} {front rest : Text} (free : ' ' ∉ front)
    (chain : ∀ d, d = c ∨ d ∈ front → (d :: rest).IsChain Adjoin) :
    (c :: (front ++ rest)).IsChain Adjoin := by
  induction front generalizing c with
  | nil => exact chain c (Or.inl rfl)
  | cons d front ih =>
    simp only [List.mem_cons, not_or] at free
    refine List.isChain_cons_cons.mpr ⟨fun space => absurd space.symm free.1, ih free.2 ?_⟩
    intro e among
    exact chain e (Or.inr (List.mem_cons.mpr among))

/-- Every space of an escaped text follows its backslash. -/
theorem isChain_escape {c : Char} {rest : Text} (free : ' ' ∉ rest) (text : Text) :
    (c :: (escape text ++ rest)).IsChain Adjoin := by
  induction text generalizing c with
  | nil =>
    have alone : (c :: (rest ++ [])).IsChain Adjoin := isChain_free free fun d _ => .singleton d
    simpa [escape] using alone
  | cons d text ih =>
    unfold escape
    split
    · refine List.isChain_cons_cons.mpr ⟨fun space => absurd space (by decide), ?_⟩
      exact List.isChain_cons_cons.mpr ⟨fun _ => rfl, ih⟩
    · next other => exact List.isChain_cons_cons.mpr ⟨fun space => absurd space other, ih⟩

end Escaping

section Written
open Meta
variable {keyword : Text} {directive : Directive}

/-- A written directive is one token, and the space behind it separates it from the next. -/
theorem isToken_written (wordFree : ' ' ∉ keyword) (writable : directive.Writable) :
    IsToken (written keyword directive) ∧ (written keyword directive).getLast? ≠ some '\\' := by
  have isToken : ∀ rest, ' ' ∉ rest →
      IsToken (keyword ++ '=' :: (escape directive.locator ++ rest)) := by
    intro rest free
    have chain : ('=' :: (keyword ++ '=' :: (escape directive.locator ++ rest))).IsChain Adjoin :=
      isChain_free wordFree fun d _ => List.isChain_cons_cons.mpr
        ⟨fun space => absurd space (by decide), isChain_escape free directive.locator⟩
    refine ⟨?_, chain.tail⟩
    cases keyword with
    | nil => simp
    | cons c keyword =>
      have other : c ≠ ' ' := fun space => wordFree (by simp [space])
      simp [other]
  unfold written
  rcases directive.range.written_cases with ⟨whole, text⟩ | ⟨fragment, isFragment, text⟩
  · obtain ⟨last, ends⟩ := Option.ne_none_iff_exists'.mp
      (fun none => writable.named (List.getLast?_eq_none_iff.mp none))
    have notEscape := (writable.unranged whole).2
    rw [text]
    refine ⟨isToken [] (by simp), ?_⟩
    rw [ends] at notEscape
    simpa [List.getLast?_append, List.getLast?_cons, getLast?_escape, ends] using notEscape
  · obtain ⟨-, free, last⟩ := Fragment.fragment?_plain isFragment
    rw [text]
    refine ⟨isToken ('#' :: fragment) (by simp [free]), ?_⟩
    cases ends : fragment.getLast? with
    | none => simp [List.getLast?_append, List.getLast?_cons, ends]
    | some c =>
      rw [ends] at last
      simpa [List.getLast?_append, List.getLast?_cons, ends] using last

/-- What was written is cut into locator and range as it was put together. -/
theorem cutRange_written (token : Text) (writable : directive.Writable) :
    cutRange token (escape directive.locator ++ directive.range.written) =
      .ok (escape directive.locator, directive.range) := by
  unfold cutRange
  rcases directive.range.written_cases with ⟨whole, text⟩ | ⟨fragment, isFragment, text⟩
  · have free : '#' ∉ escape directive.locator := fun member =>
      (mem_escape member).elim (by decide) (writable.unranged whole).1
    rw [text, List.append_nil, cutLast?_eq_none free, whole]
  · have free := (Fragment.fragment?_plain isFragment).1
    rw [text, cutLast?_append (escape directive.locator) free]
    simp only [Fragment.read_fragment? writable.bounds isFragment]

theorem locatorOf_escape {locator : Text} (plain : ¬ rootPlaceholder <+: locator)
    (rootDir : Text) : locatorOf (escape locator) rootDir = locator := by
  have noPlaceholder : stripPrefix? rootPlaceholder (escape locator) = none := by
    cases stripped : stripPrefix? rootPlaceholder (escape locator) with
    | none => rfl
    | some rest =>
      have starts := isPrefix_of_escape (by decide) ⟨rest, (stripPrefix?_eq_some_iff.mp stripped).symm⟩
      exact absurd starts plain
  rw [locatorOf, noPlaceholder]
  exact unescape_escape locator

end Written

/-- A directive that is written among other tokens of a code block is the one found there, and
is read back as it was. -/
theorem written_read_back (prefixes : Prefixes) (keyword rootDir : Text) (directive : Directive)
    (before after : List Text)
    (words : ∀ word ∈ prefixes.keywords, '=' ∉ word ∧ ' ' ∉ word)
    (registered : prefixes.kind? keyword = some directive.kind) (writable : directive.Writable)
    (others : ∀ earlier ∈ before, Meta.IsToken earlier ∧ earlier.getLast? ≠ some '\\' ∧
      ∀ word ∈ prefixes.keywords, ¬ word ++ ['='] <+: earlier) :
    let token := written keyword directive
    Meta.directiveToken? (joinWith ' ' (before ++ token :: after)) prefixes = some token ∧
      parse token rootDir prefixes = .ok directive := by
  dsimp only
  obtain ⟨free, noSpace⟩ := words keyword (Prefixes.mem_keywords_of_kind? registered)
  have stripped : ∀ rest, prefixes.strip? (keyword ++ '=' :: rest) = some (directive.kind, rest) := by
    intro rest
    rw [Prefixes.strip?_append (fun word member => (words word member).1) free, registered]
    rfl
  obtain ⟨isToken, ends⟩ := isToken_written noSpace writable
  constructor
  · obtain ⟨more, found⟩ := Meta.exists_tokens after
      (fun earlier member => ⟨(others earlier member).1, (others earlier member).2.1⟩) isToken ends
    have skipped : before.find? (fun token => (prefixes.strip? token).isSome) = none := by
      refine List.find?_eq_none.mpr fun earlier member => ?_
      simp [Prefixes.strip?_eq_none (others earlier member).2.2]
    have here : (prefixes.strip? (written keyword directive)).isSome = true := by
      rw [written, stripped]
      rfl
    rw [Meta.directiveToken?, found, List.find?_append, skipped, Option.none_or]
    exact List.find?_cons_of_pos here
  · have nonempty : escape directive.locator ≠ [] := by
      intro none
      have same := unescape_escape directive.locator
      rw [none] at same
      exact writable.named same.symm
    obtain ⟨c, path, cut⟩ := List.exists_cons_of_ne_nil nonempty
    have isWritten : prefixes.strip? (written keyword directive) = some (directive.kind, _) :=
      stripped _
    unfold parse
    rw [isWritten]
    dsimp only
    rw [cutRange_written _ writable, cut]
    dsimp only
    rw [← cut, locatorOf_escape writable.plain]

/-- A locator with spaces, backslashes, a number sign and an equals sign, a range up to the
largest line, and tokens around it. -/
theorem written_read_back_awkward :
    let directive : Directive :=
      ⟨.file, "a b\\ c#d=\\".toList, .closed 7 Fragment.maxLine⟩
    let token := "file=a\\ b\\\\ c#d=\\#L7-L18446744073709551615".toList
    Meta.directiveToken? ("js title=a\\ b  ".toList ++ token ++ " url=x".toList) .standard =
        some token ∧
      parse token "root".toList .standard = .ok directive := by
  intro directive token
  have writable : directive.Writable :=
    ⟨by decide, by decide, ⟨by decide, by decide⟩, nofun⟩
  have others : ∀ earlier ∈ ["js".toList, "title=a\\ b".toList, []],
      Meta.IsToken earlier ∧ earlier.getLast? ≠ some '\\' ∧
        ∀ word ∈ Prefixes.standard.keywords, ¬ word ++ ['='] <+: earlier := by
    decide
  have read := written_read_back .standard "file".toList "root".toList directive _
    ["url=x".toList] (by decide) (by decide) writable others
  have isWritten : written "file".toList directive = token := by decide
  rw [isWritten] at read
  exact read

end Directive
end Transclusion
