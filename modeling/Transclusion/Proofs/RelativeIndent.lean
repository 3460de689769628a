import Transclusion.Indent.ByteOffsets
import Transclusion.Proofs.AsciiBytes
import Transclusion.Proofs.Indentation

/-! The layout of stripped code. All lines that are counted in the shared indentation lose the
same amount, so they stand to each other as before. Counted are the lines whose ink begins
right behind spaces and tabs; a line with other white space in between can have less than the
amount, and then it stays where it was while its neighbours move. -/
namespace Transclusion.Indent
open Text
variable {counts : Text → Prop} {amount : Nat} {line : Text} {lines : List Text}

section Bytes

theorem tells_spaceOrTab : Tells isSpaceOrTabByte isSpaceOrTab :=
  (tells_char (by decide)).or (tells_char (by decide))

/-- The bytes a line loses with its indentation are its width. -/
theorem contentOffset?_eq (line : Text) :
    contentOffset? line = if hasContent line then some (width line) else none := by
  have blank : ∀ c ∈ line.takeWhile isSpaceOrTab, isSpaceOrTab c = true :=
    fun c => List.mem_takeWhile_imp
  have total : line.byteLength = width line + byteLength (line.dropWhile isSpaceOrTab) := by
    conv => lhs; rw [← List.takeWhile_append_dropWhile (p := isSpaceOrTab) (l := line)]
    rw [byteLength_append, tells_spaceOrTab.byteLength_eq blank]
    rfl
  unfold contentOffset? hasContent
  cases behind : line.dropWhile isSpaceOrTab with
  | nil => rfl
  | cons c rest =>
    rw [behind] at total
    by_cases ink : isWhiteSpace c = true
    · simp [startsWith, ink]
    · simp [startsWith, ink, total]

theorem commonBytes_eq (text : Text) : commonBytes text = common text := by
  have offsets : ∀ lines : List Text,
      lines.filterMap contentOffset? = (lines.filter hasContent).map width := by
    intro lines
    rw [funext contentOffset?_eq]
    induction lines with
    | nil => rfl
    | cons line lines ih =>
      by_cases content : hasContent line = true
      · simp [content, ih]
      · simp [content, ih]
  rw [commonBytes, offsets, common]

/-- Behind indentation there is always a cut. -/
theorem outdentBytes_eq (amount : Nat) (line : Text) :
    outdentBytes amount line = .ok (outdent amount line) := by
  have counted : (line.bytes.takeWhile isSpaceOrTabByte).length = width line :=
    tells_spaceOrTab.length_takeWhile line
  rw [outdentBytes, counted]
  by_cases wide : amount ≤ width line
  · obtain ⟨front, whole, length, blank⟩ := exists_front wide
    have offset : front.byteLength = amount := by
      rw [tells_spaceOrTab.byteLength_eq blank, length]
    have cut := onward_append front (outdent amount line)
    rw [← whole, offset] at cut
    rw [if_pos wide, cut]
  · rw [if_neg wide, outdent, if_neg wide]

theorem stripBytes_eq (text : Text) : stripBytes text = .ok (strip text) := by
  have cuts : ∀ amount, text.lines.mapM (outdentBytes amount) =
      .ok (text.lines.map (outdent amount)) := by
    intro amount
    have each : outdentBytes amount = fun line => pure (outdent amount line) :=
      funext (outdentBytes_eq amount)
    rw [each]
    exact List.mapM_pure
  unfold stripBytes strip
  rw [commonBytes_eq]
  cases common text with
  | zero => rfl
  | succ amount =>
    simp only [cuts]
    rfl

end Bytes

/-- A line has lost an amount of indentation. A line that is not counted may have less, and
stays as it is. -/
def Loses (counts : Text → Prop) (amount : Nat) (line out : Text) : Prop :=
  (∃ front, line = front ++ out ∧ front.length = amount ∧ ∀ c ∈ front, isSpaceOrTab c = true) ∨
    ¬ counts line ∧ width line < amount ∧ out = line

/-- The lines have lost the least indentation of those that count. -/
def Unindented (counts : Text → Prop) (lines outs : List Text) : Prop :=
  ∃ amount, LeastIndent counts amount lines ∧ List.Forall₂ (Loses counts amount) lines outs

/-- Lines lose their least indentation when each is cut by it. -/
theorem LeastIndent.unindented (least : LeastIndent counts amount lines) :
    Unindented counts lines (lines.map (outdent amount)) := by
  refine ⟨amount, least, ?_⟩
  rw [List.forall₂_map_right_iff, List.forall₂_same]
  intro line member
  by_cases wide : amount ≤ width line
  · exact Or.inl (exists_front wide)
  · refine Or.inr ⟨fun counted => wide (least.1 line member counted), Nat.lt_of_not_le wide, ?_⟩
    rw [outdent, if_neg wide]

/-- A line that counts tells what all have lost. -/
theorem Loses.amount_eq {cut : Nat} (loses : Loses counts amount line (outdent cut line))
    (counted : counts line) (wide : cut ≤ width line) : amount = cut := by
  rcases loses with ⟨front, whole, length, -⟩ | ⟨uncounted, -, -⟩
  · obtain ⟨cutOff, same, cutLength, -⟩ := exists_front wide
    have total := congrArg List.length whole
    have cutTotal := congrArg List.length same
    rw [List.length_append] at total cutTotal
    omega
  · exact absurd counted uncounted

/-- If cutting by the least indentation of the lines that begin with ink has taken the least of
all lines with ink off, the two are the same. -/
theorem amount_eq_of_unindented {cut : Nat} (least : LeastIndent HasInk amount lines)
    (cutLeast : LeastIndent BeginsWithInk cut lines)
    (lost : ∀ line ∈ lines, Loses HasInk amount line (outdent cut line)) : amount = cut := by
  -- a line that begins with ink tells; where none does nothing is cut, and any line with ink tells
  rcases cutLeast.2 with ⟨line, member, begins, rfl⟩ | ⟨rfl, -⟩
  · exact (lost line member).amount_eq begins.hasInk (Nat.le_refl _)
  · rcases least.2 with ⟨line, member, ink, -⟩ | ⟨none, -⟩
    · exact (lost line member).amount_eq ink (Nat.zero_le _)
    · exact none

/-- Stripping never cuts inside a character, and takes the least indentation of the lines that
begin with ink off the lines of a text. It takes off the least of all lines with ink, and so
keeps the layout of these, exactly where the two are the same amount. -/
theorem strip_keeps_layout_iff (text : Text) :
    stripBytes text = .ok (strip text) ∧
      Unindented BeginsWithInk text.lines (strip text).lines ∧
      (Unindented HasInk text.lines (strip text).lines ↔
        ∃ amount, LeastIndent HasInk amount text.lines ∧
          LeastIndent BeginsWithInk amount text.lines) := by
  have common := leastIndent_common text
  rw [lines_strip]
  refine ⟨stripBytes_eq text, common.unindented, ?_⟩
  constructor
  · rintro ⟨amount, least, lost⟩
    rw [List.forall₂_map_right_iff, List.forall₂_same] at lost
    obtain rfl := amount_eq_of_unindented least common lost
    exact ⟨_, least, common⟩
  · rintro ⟨amount, least, begins⟩
    rw [common_eq begins]
    exact least.unindented

/-- A form feed between the indentation and the ink of a line hides the line: it keeps its two
spaces, while the other line loses four. -/
theorem strip_keeps_layout_iff_formFeed :
    let text : Text := "    a\n  \x0cb".toList
    strip text = "a\n  \x0cb".toList ∧ ¬ Unindented HasInk text.lines (strip text).lines := by
  intro text
  refine ⟨by decide +kernel, fun kept => ?_⟩
  obtain ⟨amount, least, begins⟩ := (strip_keeps_layout_iff text).2.2.mp kept
  have few : amount ≤ width "  \x0cb".toList :=
    least.1 _ (by decide +kernel) ⟨'b', by decide +kernel, by decide +kernel⟩
  have shared : amount = 4 := by
    rw [← common_eq begins]
    decide +kernel
  have two : width "  \x0cb".toList = 2 := by decide +kernel
  omega

end Transclusion.Indent
