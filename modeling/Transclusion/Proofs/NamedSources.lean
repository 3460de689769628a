import Transclusion.Proofs.WrittenDirectives

/-! The sources that directives name. A token without a path is refused before the path is
turned into a locator. Turning it keeps every other path, but for one: the placeholder of the
root directory is a path by itself, and names nothing when there is no root directory. -/
namespace Transclusion.Directive
open Text
variable {token rest path rootDir : Text} {range : LineRange} {prefixes : Prefixes}
  {kind : SourceKind} {directive : Directive}

/-- How the part of a token behind its keyword is cut into a path and a range. The fragment
behind the last number sign is a range, an error, or an anchor that stays in the path. -/
inductive Cut (token rest : Text) : Except SyntaxError (Text × LineRange) → Prop where
  | unmarked (free : '#' ∉ rest) : Cut token rest (.ok (rest, .whole))
  | anchor {path fragment : Text} (split : rest = path ++ '#' :: fragment) (last : '#' ∉ fragment)
      (reads : Fragment.Reads fragment (.ok none)) : Cut token rest (.ok (rest, .whole))
  | ranged {path fragment : Text} {range : LineRange} (split : rest = path ++ '#' :: fragment)
      (last : '#' ∉ fragment) (reads : Fragment.Reads fragment (.ok (some range))) :
    Cut token rest (.ok (path, range))
  | missingStart {path fragment : Text} (split : rest = path ++ '#' :: fragment)
      (last : '#' ∉ fragment) (reads : Fragment.Reads fragment (.error .missingStart)) :
    Cut token rest (.error (.missingStart token fragment))
  | malformed {path fragment : Text} (split : rest = path ++ '#' :: fragment)
      (last : '#' ∉ fragment) (reads : Fragment.Reads fragment (.error .malformed)) :
    Cut token rest (.error (.malformedRange token fragment))

theorem cut_cutRange (token rest : Text) : Cut token rest (cutRange token rest) := by
  unfold cutRange
  split
  · next none => exact .unmarked (not_mem_of_cutLast? none)
  · next path fragment found =>
    obtain ⟨split, last⟩ := cutLast?_eq_some found
    split
    · next range read => exact .ranged split last (Fragment.read_eq_iff.mp read)
    · next read => exact .anchor split last (Fragment.read_eq_iff.mp read)
    · next read => exact .missingStart split last (Fragment.read_eq_iff.mp read)
    · next read => exact .malformed split last (Fragment.read_eq_iff.mp read)

/-- The cut is the one that is made. -/
theorem cutRange_eq_iff {result : Except SyntaxError (Text × LineRange)} :
    cutRange token rest = result ↔ Cut token rest result := by
  constructor
  · rintro rfl
    exact cut_cutRange token rest
  · intro cut
    unfold cutRange
    cases cut with
    | unmarked free => rw [cutLast?_eq_none free]
    | anchor split last reads
    | ranged split last reads
    | missingStart split last reads
    | malformed split last reads =>
      rw [split, cutLast?_append _ last]
      simp only [Fragment.read_eq_iff.mpr reads]

/-- Unescaping empties no text. -/
theorem unescape_eq_nil_iff {text : Text} : unescape text = [] ↔ text = [] := by
  constructor
  · intro none
    unfold unescape at none
    split at none
    · cases none
    · cases none
    · rfl
  · rintro rfl
    rfl

/-- A path loses its locator only when it is the placeholder of no root directory. -/
theorem locatorOf_eq_nil_iff :
    locatorOf path rootDir = [] ↔ path = [] ∨ path = rootPlaceholder ∧ rootDir = [] := by
  have placeholder : rootPlaceholder ≠ [] := by decide
  unfold locatorOf
  cases stripped : stripPrefix? rootPlaceholder path with
  | none =>
    have other : path ≠ rootPlaceholder := by
      rintro rfl
      rw [stripPrefix?_eq_some_iff.mpr (List.append_nil _).symm] at stripped
      cases stripped
    simp [unescape_eq_nil_iff, other]
  | some rest =>
    obtain rfl := stripPrefix?_eq_some_iff.mp stripped
    simp [unescape_eq_nil_iff, placeholder, and_comm]

section Parsing
variable (stripped : prefixes.strip? token = some (kind, rest))
include stripped

theorem parse_of_error {error : SyntaxError} (cut : Cut token rest (.error error)) :
    parse token rootDir prefixes = .error error := by
  rw [parse, stripped]
  dsimp only
  rw [cutRange_eq_iff.mpr cut]

theorem parse_of_pathless (cut : Cut token rest (.ok ([], range))) :
    parse token rootDir prefixes = .error (.emptyLocator token) := by
  rw [parse, stripped]
  dsimp only
  rw [cutRange_eq_iff.mpr cut]

theorem parse_of_path (cut : Cut token rest (.ok (path, range))) (nonempty : path ≠ []) :
    parse token rootDir prefixes = .ok ⟨kind, locatorOf path rootDir, range⟩ := by
  obtain ⟨c, more, rfl⟩ := List.exists_cons_of_ne_nil nonempty
  rw [parse, stripped]
  dsimp only
  rw [cutRange_eq_iff.mpr cut]

end Parsing

/-- A directive is read from a keyword and a path behind it. -/
theorem exists_of_parse (parsed : parse token rootDir prefixes = .ok directive) :
    ∃ rest path, prefixes.strip? token = some (directive.kind, rest) ∧
      Cut token rest (.ok (path, directive.range)) ∧ path ≠ [] ∧
      directive.locator = locatorOf path rootDir := by
  cases stripped : prefixes.strip? token with
  | none =>
    rw [parse, stripped] at parsed
    cases parsed
  | some found =>
    obtain ⟨kind, rest⟩ := found
    have cut := cut_cutRange token rest
    cases result : cutRange token rest with
    | error error =>
      rw [result] at cut
      rw [parse_of_error stripped cut] at parsed
      cases parsed
    | ok parts =>
      obtain ⟨path, range⟩ := parts
      rw [result] at cut
      by_cases pathless : path = []
      · subst pathless
        rw [parse_of_pathless stripped cut] at parsed
        cases parsed
      · rw [parse_of_path stripped cut pathless] at parsed
        cases parsed
        exact ⟨rest, path, rfl, cut, pathless, rfl⟩

/-- A directive that was read names a source, unless its path is the placeholder alone and
there is no root directory. Every other token whose path gives no locator is refused for that,
and one whose range cannot be read is refused for its range. -/
theorem parse_names_source_iff (token rootDir : Text) (prefixes : Prefixes) :
    (∀ directive, parse token rootDir prefixes = .ok directive →
      (directive.locator ≠ [] ↔ ¬ (rootDir = [] ∧
        ∃ rest, prefixes.strip? token = some (directive.kind, rest) ∧
          Cut token rest (.ok (rootPlaceholder, directive.range))))) ∧
    ∀ kind rest, prefixes.strip? token = some (kind, rest) →
      (∀ path range, Cut token rest (.ok (path, range)) → locatorOf path rootDir = [] →
        parse token rootDir prefixes =
          if path = rootPlaceholder then .ok ⟨kind, [], range⟩
          else .error (.emptyLocator token)) ∧
      ∀ error, Cut token rest (.error error) → parse token rootDir prefixes = .error error := by
  refine ⟨fun directive parsed => not_congr ?_, fun kind rest stripped => ⟨?_, ?_⟩⟩
  · obtain ⟨rest, path, stripped, cut, nonempty, locator⟩ := exists_of_parse parsed
    rw [locator, locatorOf_eq_nil_iff]
    constructor
    · rintro (none | ⟨rfl, noRoot⟩)
      · exact absurd none nonempty
      · exact ⟨noRoot, rest, stripped, cut⟩
    · rintro ⟨noRoot, other, otherStripped, placeholder⟩
      obtain ⟨-, rfl⟩ := Prod.mk.inj (Option.some.inj (stripped.symm.trans otherStripped))
      have same := (cutRange_eq_iff.mpr cut).symm.trans (cutRange_eq_iff.mpr placeholder)
      exact Or.inr ⟨(Prod.mk.inj (Except.ok.inj same)).1, noRoot⟩
  · intro path range cut unnamed
    by_cases placeholder : path = rootPlaceholder
    · have nonempty : path ≠ [] := by
        rw [placeholder]
        decide
      rw [if_pos placeholder, parse_of_path stripped cut nonempty, unnamed]
    · rw [if_neg placeholder]
      rcases locatorOf_eq_nil_iff.mp unnamed with rfl | ⟨same, -⟩
      · exact parse_of_pathless stripped cut
      · exact absurd same placeholder
  · exact fun error cut => parse_of_error stripped cut

/-- The placeholder by itself names the root directory, and nothing without one. -/
theorem parse_names_source_iff_bareRoot :
    let token := "file=<rootDir>#L2-".toList
    parse token [] .standard = .ok ⟨.file, [], .onward 2⟩ ∧
      ∃ directive, parse token "r".toList .standard = .ok directive ∧ directive.locator ≠ [] := by
  intro token
  have stripped : Prefixes.standard.strip? token = some (.file, "<rootDir>#L2-".toList) := by
    decide
  have cut : Cut token "<rootDir>#L2-".toList (.ok (rootPlaceholder, .onward 2)) :=
    cutRange_eq_iff.mp (by decide)
  have parsed : parse token "r".toList .standard = .ok ⟨.file, "r".toList, .onward 2⟩ := by
    decide
  constructor
  · exact ((parse_names_source_iff token [] .standard).2 .file _ stripped).1 _ _ cut rfl
  · refine ⟨_, parsed, ?_⟩
    apply ((parse_names_source_iff token "r".toList .standard).1 _ parsed).mpr
    rintro ⟨noRoot, -⟩
    cases noRoot

end Transclusion.Directive
