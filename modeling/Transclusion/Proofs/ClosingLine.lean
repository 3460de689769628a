import Transclusion.Proofs.Lines

/-! Which lines close a fenced block. The walk over the containers consumes spaces and
quote markers at the front of a line and looks at nothing behind them, so a closing
line stays one when its run of markers is replaced by another that is long enough. -/
namespace Transclusion

namespace Container
open Text

section Spaces
variable {line rest : Text}

theorem leadingSpaces_replicate (n : Nat) (rest : Text) :
    leadingSpaces (List.replicate n ' ' ++ rest) = n + leadingSpaces rest := by
  induction n with
  | zero => simp
  | succ n ih =>
    simp only [leadingSpaces, countWhile, List.replicate_succ, List.cons_append] at ih ⊢
    rw [List.takeWhile_cons_of_pos (by simp), List.length_cons, ih]
    omega

theorem leadingSpaces_eq_zero (other : rest.head? ≠ some ' ') : leadingSpaces rest = 0 := by
  cases rest with
  | nil => rfl
  | cons c rest =>
    have differs : c ≠ ' ' := by simpa using other
    simp [leadingSpaces, countWhile, differs]

/-- A line is its leading spaces and what follows them, which is no space. -/
theorem exists_leadingSpaces (line : Text) :
    ∃ rest, line = List.replicate (leadingSpaces line) ' ' ++ rest ∧
      line.drop (leadingSpaces line) = rest ∧ rest.head? ≠ some ' ' :=
  exists_run ' ' line

theorem drop_spaces (n : Nat) (rest : Text) : (List.replicate n ' ' ++ rest).drop n = rest :=
  List.drop_left' (by simp)

theorem dropSpace_of_head? (other : rest.head? ≠ some ' ') : dropSpace rest = rest := by
  cases rest with
  | nil => rfl
  | cons c rest =>
    have differs : c ≠ ' ' := by simpa using other
    unfold dropSpace
    split
    · next same => exact absurd (List.cons.inj same).1 differs
    · rfl

/-- The optional space is gone, or there was none. -/
theorem eq_of_dropSpace (text : Text) :
    text = ' ' :: dropSpace text ∨ (text = dropSpace text ∧ text.head? ≠ some ' ') := by
  by_cases space : text.head? = some ' '
  · obtain ⟨rest, rfl⟩ := List.head?_eq_some_iff.mp space
    exact Or.inl rfl
  · exact Or.inr ⟨(dropSpace_of_head? space).symm, space⟩

theorem dropSpace_eq_self_iff {text : Text} : dropSpace text = text ↔ text.head? ≠ some ' ' := by
  rcases eq_of_dropSpace text with space | ⟨same, noSpace⟩
  · constructor
    · intro same
      have lengths := congrArg List.length space
      rw [same] at lengths
      simp at lengths
    · intro noSpace
      rw [space] at noSpace
      simp at noSpace
  · exact ⟨fun _ => noSpace, fun _ => same.symm⟩

end Spaces

/-- A quote is entered behind at most three spaces, its marker and an optional space. -/
theorem enter?_quote_iff {line rest : Text} :
    enter? line quote = some rest ↔
      ∃ n tail, n ≤ 3 ∧ line = List.replicate n ' ' ++ '>' :: tail ∧ rest = dropSpace tail := by
  constructor
  · intro entered
    simp only [enter?] at entered
    split at entered
    · next tail dropped =>
      obtain ⟨behind, whole, skipped, -⟩ := exists_leadingSpaces line
      have few : leadingSpaces line ≤ 3 := by
        by_cases few : leadingSpaces line ≤ 3
        · exact few
        -- with more spaces the fourth would stand where the marker was found
        rw [Nat.min_eq_right (by omega), whole] at dropped
        obtain ⟨m, more⟩ : ∃ m, leadingSpaces line = 3 + (m + 1) :=
          ⟨leadingSpaces line - 4, by omega⟩
        rw [more, List.replicate_add, List.append_assoc, drop_spaces, List.replicate_succ,
          List.cons_append] at dropped
        simp at dropped
      rw [Nat.min_eq_left few, skipped] at dropped
      refine ⟨leadingSpaces line, tail, few, ?_, (Option.some.inj entered).symm⟩
      rw [← dropped]
      exact whole
    · cases entered
  · rintro ⟨n, tail, few, rfl, rfl⟩
    have spaces : leadingSpaces (List.replicate n ' ' ++ '>' :: tail) = n := by
      rw [leadingSpaces_replicate, leadingSpaces_eq_zero (by simp), Nat.add_zero]
    simp only [enter?, spaces, Nat.min_eq_left few, drop_spaces]

/-- A list item is entered behind as many spaces as it is wide. -/
theorem enter?_item_iff {line rest : Text} {width : Nat} :
    enter? line (item width) = some rest ↔ line = List.replicate width ' ' ++ rest := by
  constructor
  · intro entered
    simp only [enter?] at entered
    split at entered
    · cases entered
    · next wide =>
      obtain ⟨behind, whole, -⟩ := exists_leadingSpaces line
      obtain ⟨m, more⟩ : ∃ m, leadingSpaces line = width + m :=
        ⟨leadingSpaces line - width, by omega⟩
      rw [more, List.replicate_add, List.append_assoc] at whole
      rw [whole, drop_spaces] at entered
      rw [whole, ← Option.some.inj entered]
  · rintro rfl
    have wide : ¬ leadingSpaces (List.replicate width ' ' ++ rest) < width := by
      rw [leadingSpaces_replicate]
      omega
    simp only [enter?, wide, ↓reduceIte, drop_spaces]

theorem enterAll?_cons (container : Container) (containers : List Container) (line : Text) :
    enterAll? (container :: containers) line =
      (enter? line container).bind (enterAll? containers) := rfl

/-- Entering a container consumes spaces and quote markers at the front of a line; of what
is left only the first character matters. -/
theorem enter?_front {line rest : Text} {container : Container}
    (entered : enter? line container = some rest) :
    ∃ front, line = front ++ rest ∧ (∀ c ∈ front, c = ' ' ∨ c = '>') ∧
      ∀ other, other.head? = rest.head? → enter? (front ++ other) container = some other := by
  have spaces : ∀ {n c}, c ∈ List.replicate n ' ' → c = ' ' ∨ c = '>' :=
    fun member => Or.inl (List.eq_of_mem_replicate member)
  cases container with
  | quote =>
    obtain ⟨n, tail, few, rfl, rfl⟩ := enter?_quote_iff.mp entered
    rcases eq_of_dropSpace tail with space | ⟨same, noSpace⟩
    · refine ⟨List.replicate n ' ' ++ ['>', ' '], ?_, ?_, ?_⟩
      · conv => lhs; rw [space]
        simp
      · intro c member
        rcases List.mem_append.mp member with indent | marker
        · exact spaces indent
        · simpa [or_comm] using marker
      · intro other _
        exact enter?_quote_iff.mpr ⟨n, ' ' :: other, few, by simp, rfl⟩
    · refine ⟨List.replicate n ' ' ++ ['>'], ?_, ?_, ?_⟩
      · rw [← same]
        simp
      · intro c member
        rcases List.mem_append.mp member with indent | marker
        · exact spaces indent
        · exact Or.inr (List.mem_singleton.mp marker)
      · intro other agrees
        refine enter?_quote_iff.mpr ⟨n, other, few, by simp, (dropSpace_of_head? ?_).symm⟩
        rw [agrees, ← same]
        exact noSpace
  | item width =>
    refine ⟨List.replicate width ' ', enter?_item_iff.mp entered, fun _ => spaces, ?_⟩
    exact fun other _ => enter?_item_iff.mpr rfl

theorem enterAll?_front {line rest : Text} {containers : List Container}
    (entered : enterAll? containers line = some rest) :
    ∃ front, line = front ++ rest ∧ (∀ c ∈ front, c = ' ' ∨ c = '>') ∧
      ∀ other, other.head? = rest.head? → enterAll? containers (front ++ other) = some other := by
  induction containers generalizing line with
  | nil =>
    cases entered
    exact ⟨[], rfl, by simp, fun other _ => rfl⟩
  | cons container containers ih =>
    rw [enterAll?_cons] at entered
    obtain ⟨middle, first, later⟩ := Option.bind_eq_some_iff.mp entered
    obtain ⟨outer, rfl, outerMarks, outerStep⟩ := enter?_front first
    obtain ⟨inner, rfl, innerMarks, innerStep⟩ := ih later
    refine ⟨outer ++ inner, by simp, ?_, ?_⟩
    · intro c member
      rcases List.mem_append.mp member with inOuter | inInner
      · exact outerMarks c inOuter
      · exact innerMarks c inInner
    intro other agrees
    have sameHead : (inner ++ other).head? = (inner ++ rest).head? := by
      cases inner <;> simp [agrees]
    rw [enterAll?_cons, List.append_assoc, outerStep _ sameHead]
    exact innerStep other agrees

end Container

namespace FencedBlock

theorem isMarker_iff {c : Char} : isMarker c = true ↔ c = '`' ∨ c = '~' := by
  simp [isMarker]

theorem isMarker_not_space {c : Char} (marker : isMarker c = true) :
    isWhiteSpace c = false ∧ c ≠ ' ' ∧ c ≠ '>' ∧ c ≠ '\n' ∧ c ≠ '\r' := by
  rcases isMarker_iff.mp marker with rfl | rfl <;> decide

end FencedBlock

namespace Fence
open Text Container

variable {fence : Fence} {containers : List Container} {line : Text}

/-- The closing run stands behind the containers, which are spaces and quote markers there,
and at most three spaces, is long enough and has nothing but white space behind it. -/
theorem closing?_eq_some {place run : Nat}
    (found : fence.closing? containers line = some (place, run)) :
    ∃ front blanks n, n ≤ 3 ∧ (∀ c ∈ front, c = ' ' ∨ c = '>') ∧
      (∀ c ∈ blanks, isWhiteSpace c = true) ∧ fence.length ≤ run ∧ place = front.length + n ∧
      line = front ++ (List.replicate n ' ' ++ (List.replicate run fence.marker ++ blanks)) ∧
      ∀ other, other.head? =
          (List.replicate n ' ' ++ (List.replicate run fence.marker ++ blanks)).head? →
        enterAll? containers (front ++ other) = some other := by
  unfold closing? at found
  split at found
  · cases found
  · next rest entered =>
    obtain ⟨front, rfl, marks, congr⟩ := enterAll?_front entered
    obtain ⟨behind, spaces, skipped, -⟩ := exists_leadingSpaces rest
    simp only [skipped] at found
    split at found
    · cases found
    · next fits =>
      split at found
      · next blank =>
        simp only [Option.some.injEq, Prod.mk.injEq, List.length_append] at found
        obtain ⟨rfl, rfl⟩ := found
        obtain ⟨tail, runs, dropped, -⟩ := exists_run fence.marker behind
        have shape : rest = List.replicate (leadingSpaces rest) ' ' ++
            (List.replicate (countWhile (· = fence.marker) behind) fence.marker ++
              behind.drop (countWhile (· = fence.marker) behind)) := by
          rw [dropped, ← runs]
          exact spaces
        simp only [Bool.or_eq_true, decide_eq_true_eq, not_or, Nat.not_lt] at fits
        refine ⟨front, behind.drop (countWhile (· = fence.marker) behind), leadingSpaces rest,
          fits.1, marks, by simpa using blank, fits.2, by omega, congrArg (front ++ ·) shape, ?_⟩
        rw [← shape]
        exact congr
      · cases found

theorem head?_run (marker : FencedBlock.isMarker fence.marker = true) {run : Nat}
    (positive : 0 < run) (blanks : Text) :
    (List.replicate run fence.marker ++ blanks).head? ≠ some ' ' := by
  obtain ⟨m, rfl⟩ := Nat.exists_eq_add_of_lt positive
  simp [List.replicate_succ, (FencedBlock.isMarker_not_space marker).2.1]

theorem countWhile_run {blanks : Text} (marker : FencedBlock.isMarker fence.marker = true)
    (run : Nat) (blank : ∀ c ∈ blanks, isWhiteSpace c = true) :
    countWhile (· = fence.marker) (List.replicate run fence.marker ++ blanks) = run := by
  refine countWhile_replicate (by simp) ?_
  cases blanks with
  | nil => rfl
  | cons c blanks =>
    have notWhite := (FencedBlock.isMarker_not_space marker).1
    have white := blank c (by simp)
    have differs : c ≠ fence.marker := by
      rintro rfl
      simp [white] at notWhite
    simp [differs]

/-- A line that holds the containers, a run as long as the fence and white space closes
the block. -/
theorem closing?_of_run (front : Text) {blanks : Text} {n run : Nat}
    (marker : FencedBlock.isMarker fence.marker = true) (few : n ≤ 3) (positive : 0 < run)
    (enough : fence.length ≤ run) (blank : ∀ c ∈ blanks, isWhiteSpace c = true)
    (entered : enterAll? containers
        (front ++ (List.replicate n ' ' ++ (List.replicate run fence.marker ++ blanks))) =
      some (List.replicate n ' ' ++ (List.replicate run fence.marker ++ blanks))) :
    fence.closing? containers
        (front ++ (List.replicate n ' ' ++ (List.replicate run fence.marker ++ blanks))) =
      some (front.length + n, run) := by
  have noSpace : (List.replicate run fence.marker ++ blanks).head? ≠ some ' ' :=
    head?_run marker positive blanks
  have spaces : leadingSpaces
      (List.replicate n ' ' ++ (List.replicate run fence.marker ++ blanks)) = n := by
    rw [leadingSpaces_replicate, leadingSpaces_eq_zero noSpace, Nat.add_zero]
  have runs : countWhile (· = fence.marker) (List.replicate run fence.marker ++ blanks) = run :=
    countWhile_run marker run blank
  have behind : (List.replicate run fence.marker ++ blanks).drop run = blanks :=
    List.drop_left' (by simp)
  have fits : ¬ ((decide (3 < n) || decide (run < fence.length)) = true) := by
    simp only [Bool.or_eq_true, decide_eq_true_eq]
    omega
  unfold closing?
  rw [entered]
  simp only [spaces, drop_spaces, runs, behind, fits, Bool.false_eq_true, ↓reduceIte,
    List.all_eq_true.mpr blank, Option.some.injEq, Prod.mk.injEq, and_true]
  simp only [List.length_append]
  omega

/-- A closing line keeps closing when its run gives way to another one that is long
enough and its blanks to others, and the run stands in the same place. -/
theorem exists_closing_line {place run : Nat} (marker : FencedBlock.isMarker fence.marker = true)
    (positive : 0 < fence.length) (found : fence.closing? containers line = some (place, run)) :
    ∃ lead blanks, line = lead ++ List.replicate run fence.marker ++ blanks ∧
      lead.length = place ∧ fence.length ≤ run ∧ (∀ c ∈ lead, c = ' ' ∨ c = '>') ∧
      (∀ c ∈ blanks, isWhiteSpace c = true) ∧
      ∀ wider : Fence, ∀ longer, wider.marker = fence.marker → wider.length ≤ longer → 0 < longer →
        ∀ others : Text, (∀ c ∈ others, isWhiteSpace c = true) →
          wider.closing? containers (lead ++ List.replicate longer fence.marker ++ others) =
            some (place, longer) := by
  obtain ⟨front, blanks, n, few, marks, blank, enough, rfl, rfl, congr⟩ :=
    closing?_eq_some found
  refine ⟨front ++ List.replicate n ' ', blanks, by simp, by simp, enough, ?_, blank, ?_⟩
  · intro c member
    rcases List.mem_append.mp member with inFront | indent
    · exact marks c inFront
    · exact Or.inl (List.eq_of_mem_replicate indent)
  intro wider longer same reaches some others blankOthers
  have sameHead : (List.replicate n ' ' ++ (List.replicate longer wider.marker ++ others)).head? =
      (List.replicate n ' ' ++ (List.replicate run fence.marker ++ blanks)).head? := by
    obtain ⟨m, rfl⟩ := Nat.exists_eq_add_of_lt some
    obtain ⟨l, rfl⟩ := Nat.exists_eq_add_of_lt (Nat.lt_of_lt_of_le positive enough)
    cases n <;> simp [List.replicate_succ, same]
  have closes := closing?_of_run front (by rw [same]; exact marker) few some reaches
    blankOthers (congr _ sameHead)
  rw [same] at closes
  simpa using closes

/-- An empty line closes no block. -/
theorem closing?_nil (positive : 0 < fence.length) : fence.closing? containers [] = none := by
  unfold closing?
  split
  · rfl
  · next rest entered =>
    obtain ⟨front, whole, -⟩ := enterAll?_front entered
    have empty : rest = [] := (List.append_eq_nil_iff.mp whole.symm).2
    simp [empty, countWhile, positive]

end Fence
end Transclusion
