import Transclusion.Proofs.Indentation

/-! Stripping undoes indenting. A stripped text shares no indentation any more and is stripped
to itself, and what is put in front of every line is shared by all of them, so it goes with
what they shared before. Lines without content have no say in this: they may keep what was put
in front of them. -/
namespace Transclusion.Indent
open Text
variable {text margin : Text} {line : Text} {amount : Nat}

/-- A text with `margin` in front of each of its lines. -/
def indented (margin text : Text) : Text := unlines (text.lines.map (margin ++ ·))

theorem strip_of_common (none : common text = 0) : strip text = text := by
  rw [strip, none]
  rfl

/-- Nothing shared is left by stripping. -/
theorem common_strip (text : Text) : common (strip text) = 0 := by
  have least := leastIndent_common text
  have same : ∀ line, BeginsWithInk (outdent (common text) line) ↔ BeginsWithInk line := by
    intro line
    rw [← hasContent_iff, hasContent_outdent, hasContent_iff]
  apply common_eq
  rw [lines_strip]
  by_cases any : ∃ line ∈ text.lines, BeginsWithInk line
  · have shift : ∀ line ∈ text.lines, BeginsWithInk line →
        width (outdent (common text) line) + common text = width line + 0 :=
      fun line member begins => width_outdent (least.1 line member begins)
    exact least.map same shift (Nat.zero_add _) any
  · refine ⟨fun _ _ _ => Nat.zero_le _, Or.inr ⟨rfl, fun out member begins => any ?_⟩⟩
    obtain ⟨line, among, rfl⟩ := List.mem_map.mp member
    exact ⟨line, among, (same line).mp begins⟩

/-- Each line of a stripped text is the end of a line behind some of its indentation. -/
theorem lines_strip_behind (text : Text) :
    List.Forall₂ (fun line out => ∃ front, line = front ++ out ∧
      ∀ c ∈ front, isSpaceOrTab c = true) text.lines (strip text).lines := by
  rw [lines_strip, List.forall₂_map_right_iff, List.forall₂_same]
  intro line _
  by_cases wide : common text ≤ width line
  · obtain ⟨front, whole, -, blank⟩ := exists_front wide
    exact ⟨front, whole, blank⟩
  · refine ⟨[], ?_, nofun⟩
    rw [outdent, if_neg wide, List.nil_append]

section Margin
variable (blank : ∀ c ∈ margin, isSpaceOrTab c = true)
include blank

theorem lines_indented (text : Text) : (indented margin text).lines = text.lines.map (margin ++ ·) := by
  apply lines_unlines_map
  intro line free newline
  rcases List.mem_append.mp newline with inMargin | inLine
  · exact absurd (blank '\n' inMargin) (by decide)
  · exact free inLine

/-- The margin is shared with all that was shared before. -/
theorem common_indented (any : ∃ line ∈ text.lines, BeginsWithInk line) :
    common (indented margin text) = common text + margin.length := by
  have same : ∀ line, BeginsWithInk (margin ++ line) ↔ BeginsWithInk line := by
    intro line
    rw [← hasContent_iff, hasContent_append blank, hasContent_iff]
  have shift : ∀ line ∈ text.lines, BeginsWithInk line →
      width (margin ++ line) + 0 = width line + margin.length := by
    intro line _ _
    rw [width_append blank, Nat.add_zero, Nat.add_comm]
  apply common_eq
  rw [lines_indented blank]
  exact (leastIndent_common text).map same shift rfl any

theorem outdent_append (wide : amount ≤ width line) :
    outdent (amount + margin.length) (margin ++ line) = outdent amount line := by
  have wider : amount + margin.length ≤ width (margin ++ line) := by
    rw [width_append blank]
    omega
  rw [outdent, if_pos wider, outdent, if_pos wide, Nat.add_comm, List.drop_append]
  simp

end Margin

/-- Stripping twice is stripping once, and takes nothing but indentation off the front of
lines. It takes all off that was put in front of every line: a line that begins with ink comes
out as it does from the text that was not indented. -/
theorem strip_undoes_indenting (text : Text) :
    strip (strip text) = strip text ∧
      List.Forall₂ (fun line out => ∃ front, line = front ++ out ∧
        ∀ c ∈ front, isSpaceOrTab c = true) text.lines (strip text).lines ∧
      ∀ margin, (∀ c ∈ margin, isSpaceOrTab c = true) →
        ∀ (i : Nat) (line : Text), text.lines[i]? = some line → BeginsWithInk line →
          ∃ out, (strip text).lines[i]? = some out ∧
            (strip (indented margin text)).lines[i]? = some out := by
  refine ⟨strip_of_common (common_strip text), lines_strip_behind text, ?_⟩
  intro margin blank i line there begins
  have member : line ∈ text.lines := List.mem_of_getElem? there
  have wide : common text ≤ width line := (leastIndent_common text).1 line member begins
  refine ⟨outdent (common text) line, ?_, ?_⟩
  · rw [lines_strip, List.getElem?_map, there]
    rfl
  · rw [lines_strip, lines_indented blank, common_indented blank ⟨line, member, begins⟩,
      List.getElem?_map, List.getElem?_map, there, ← outdent_append blank wide]
    rfl

/-- A line of white space keeps the margin, while the lines around it come out as they do
without. -/
theorem strip_undoes_indenting_formFeed :
    let text : Text := "  a\n \x0c\n    b\r".toList
    strip (indented "\t ".toList text) = "a\n\t  \x0c\n  b\r".toList ∧
      ∃ out, (strip text).lines[2]? = some out ∧
        (strip (indented "\t ".toList text)).lines[2]? = some out := by
  intro text
  have blank : ∀ c ∈ "\t ".toList, isSpaceOrTab c = true :=
    List.all_eq_true.mp (by decide +kernel)
  have begins : BeginsWithInk "    b\r".toList :=
    hasContent_iff.mp (by decide +kernel)
  refine ⟨by decide +kernel, ?_⟩
  exact (strip_undoes_indenting text).2.2 _ blank 2 _ (by decide +kernel) begins

end Transclusion.Indent
