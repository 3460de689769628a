import Transclusion.Proofs.SelectedLines

/-! The least indentation of some lines of a text. It is one number, whichever line attains
it, and moves with the lines: cutting a common part of the indentation off or putting more in
front takes it along. -/
namespace Transclusion.Indent
open Text
variable {counts : Text → Prop} {amount : Nat} {line : Text} {lines : List Text}

/-- A line has something to be seen. -/
def HasInk (line : Text) : Prop := ∃ c ∈ line, isWhiteSpace c = false

/-- The first character of a line behind its spaces and tabs is there and is no other white
space. -/
def BeginsWithInk (line : Text) : Prop :=
  ∃ front c rest, line = front ++ c :: rest ∧ (∀ d ∈ front, isSpaceOrTab d = true) ∧
    isWhiteSpace c = false

/-- The least indentation of the lines that count; there is none if no line counts. -/
def LeastIndent (counts : Text → Prop) (amount : Nat) (lines : List Text) : Prop :=
  (∀ line ∈ lines, counts line → amount ≤ width line) ∧
    ((∃ line ∈ lines, counts line ∧ width line = amount) ∨
      amount = 0 ∧ ∀ line ∈ lines, ¬ counts line)

/-- Content is ink right behind the indentation. -/
theorem hasContent_iff : hasContent line = true ↔ BeginsWithInk line := by
  constructor
  · intro content
    obtain ⟨c, first, ink⟩ := (Option.any_eq_true _ _).mp content
    obtain ⟨rest, behind⟩ := List.head?_eq_some_iff.mp first
    refine ⟨line.takeWhile isSpaceOrTab, c, rest, ?_, fun d => List.mem_takeWhile_imp, ?_⟩
    · rw [← behind, List.takeWhile_append_dropWhile]
    · simpa using ink
  · rintro ⟨front, c, rest, rfl, blank, ink⟩
    have kept : isSpaceOrTab c = false := by
      by_contra blankToo
      rw [isWhiteSpace_of_isSpaceOrTab (by simpa using blankToo)] at ink
      cases ink
    simp [hasContent, startsWith, List.dropWhile_append_of_pos blank, kept, ink]

theorem BeginsWithInk.hasInk (begins : BeginsWithInk line) : HasInk line := by
  obtain ⟨front, c, rest, rfl, -, ink⟩ := begins
  exact ⟨c, by simp, ink⟩

section Margin
variable {margin : Text} (blank : ∀ c ∈ margin, isSpaceOrTab c = true) (line : Text)
include blank

/-- More indentation makes no content and hides none. -/
theorem hasContent_append : hasContent (margin ++ line) = hasContent line := by
  rw [hasContent, List.dropWhile_append_of_pos blank, hasContent]

theorem width_append : width (margin ++ line) = margin.length + width line := by
  simp [width, countWhile, List.takeWhile_append_of_pos blank]

end Margin

theorem width_outdent (wide : amount ≤ width line) :
    width (outdent amount line) + amount = width line := by
  obtain ⟨front, whole, length, blank⟩ := exists_front wide
  have moved := width_append blank (outdent amount line)
  rw [← whole] at moved
  omega

/-- A line that is cut keeps its content, and gains none. -/
theorem hasContent_outdent (amount : Nat) (line : Text) :
    hasContent (outdent amount line) = hasContent line := by
  by_cases wide : amount ≤ width line
  · obtain ⟨front, whole, -, blank⟩ := exists_front wide
    have moved := hasContent_append blank (outdent amount line)
    rw [← whole] at moved
    exact moved.symm
  · rw [outdent, if_neg wide]

theorem LeastIndent.unique {other : Nat} (least : LeastIndent counts amount lines)
    (otherLeast : LeastIndent counts other lines) : amount = other := by
  rcases least.2 with ⟨line, member, counted, rfl⟩ | ⟨rfl, none⟩
  · rcases otherLeast.2 with ⟨second, among, countedToo, rfl⟩ | ⟨-, none⟩
    · exact Nat.le_antisymm (least.1 second among countedToo) (otherLeast.1 line member counted)
    · exact absurd counted (none line member)
  · rcases otherLeast.2 with ⟨second, among, counted, -⟩ | ⟨rfl, -⟩
    · exact absurd counted (none second among)
    · rfl

/-- Lines that are all moved by the same amount move their least indentation by it. If none
of them counted it would stay at zero. -/
theorem LeastIndent.map {f : Text → Text} {lost gained moved : Nat}
    (least : LeastIndent counts amount lines) (same : ∀ line, counts (f line) ↔ counts line)
    (shift : ∀ line ∈ lines, counts line → width (f line) + lost = width line + gained)
    (total : moved + lost = amount + gained) (any : ∃ line ∈ lines, counts line) :
    LeastIndent counts moved (lines.map f) := by
  constructor
  · intro out member counted
    obtain ⟨line, among, rfl⟩ := List.mem_map.mp member
    have counted := (same line).mp counted
    have bound := least.1 line among counted
    have shifted := shift line among counted
    omega
  · obtain ⟨line, among, counted⟩ := any
    rcases least.2 with ⟨first, member, counted, attained⟩ | ⟨-, none⟩
    · have shifted := shift first member counted
      refine Or.inl ⟨f first, List.mem_map_of_mem member, (same first).mpr counted, ?_⟩
      omega
    · exact absurd counted (none line among)

/-- What is shared is the least indentation of the lines that begin with ink. -/
theorem leastIndent_common (text : Text) : LeastIndent BeginsWithInk (common text) text.lines := by
  have shared := isShared_common text
  refine ⟨fun line member begins => shared.1 line member (hasContent_iff.mpr begins), ?_⟩
  rcases shared.2 with ⟨line, member, content, width⟩ | ⟨none, blank⟩
  · exact Or.inl ⟨line, member, hasContent_iff.mp content, width⟩
  · refine Or.inr ⟨none, fun line member begins => ?_⟩
    rw [← hasContent_iff, blank line member] at begins
    cases begins

theorem common_eq {text : Text} (least : LeastIndent BeginsWithInk amount text.lines) :
    common text = amount :=
  (leastIndent_common text).unique least

/-- Lines that are changed one by one, and get no newline in them, stay the lines. -/
theorem lines_unlines_map {f : Text → Text} (text : Text)
    (free : ∀ line, '\n' ∉ line → '\n' ∉ f line) :
    (unlines (text.lines.map f)).lines = text.lines.map f := by
  apply splitOn_joinWith
  · simpa [Text.lines] using splitOn_ne_nil '\n' text
  · intro out member
    obtain ⟨line, among, rfl⟩ := List.mem_map.mp member
    exact free line (not_mem_of_mem_splitOn among)

/-- The lines of a stripped text are those of the text, each cut by what they share. -/
theorem lines_strip (text : Text) :
    (strip text).lines = text.lines.map (outdent (common text)) := by
  rw [strip_eq]
  apply lines_unlines_map
  intro line free
  by_cases wide : common text ≤ width line
  · rw [outdent, if_pos wide]
    exact fun inside => free (List.mem_of_mem_drop inside)
  · rw [outdent, if_neg wide]
    exact free

end Transclusion.Indent
