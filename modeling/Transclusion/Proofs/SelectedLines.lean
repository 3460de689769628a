import Mathlib.Data.List.Forall2
import Transclusion.Proofs.BlockLines
import Transclusion.Snippet

/-! The way of a selection into a block. Selected lines are joined to a snippet, cut again to
lose the indentation they share, joined and cut once more to be written; no line is lost,
added or moved on the way. Only a single empty line leaves no trace, since as a snippet it
is the empty text. -/
namespace Transclusion
open Text

namespace Indent
variable {amount : Nat} {line : Text} {lines : List Text}

/-- The indentation that lines share: no line with content has less and one of them has no
more. Without any such line there is none. -/
def IsShared (amount : Nat) (lines : List Text) : Prop :=
  (∀ line ∈ lines, hasContent line = true → amount ≤ width line) ∧
    ((∃ line ∈ lines, hasContent line = true ∧ width line = amount) ∨
      amount = 0 ∧ ∀ line ∈ lines, hasContent line = false)

/-- A line has lost an amount of indentation. One without content may have less than that,
and stays as it is. -/
def Outdented (amount : Nat) (line out : Text) : Prop :=
  (∃ front, line = front ++ out ∧ front.length = amount ∧ ∀ c ∈ front, isSpaceOrTab c = true) ∨
    width line < amount ∧ hasContent line = false ∧ out = line

theorem isShared_common (text : Text) : IsShared (common text) text.lines := by
  unfold common
  cases least : ((text.lines.filter hasContent).map width).min? with
  | none =>
    have blank := List.filter_eq_nil_iff.mp (List.map_eq_nil_iff.mp (List.min?_eq_none_iff.mp least))
    refine ⟨fun _ _ _ => Nat.zero_le _, Or.inr ⟨rfl, fun line member => ?_⟩⟩
    simpa using blank line member
  | some amount =>
    obtain ⟨attained, below⟩ := List.min?_eq_some_iff.mp least
    obtain ⟨line, kept, width⟩ := List.mem_map.mp attained
    obtain ⟨member, content⟩ := List.mem_filter.mp kept
    refine ⟨fun other inText hasOne => ?_, Or.inl ⟨line, member, content, width⟩⟩
    exact below _ (List.mem_map_of_mem (List.mem_filter.mpr ⟨inText, hasOne⟩))

/-- No more than its indentation is cut off a line. -/
theorem exists_front (wide : amount ≤ width line) :
    ∃ front, line = front ++ outdent amount line ∧ front.length = amount ∧
      ∀ c ∈ front, isSpaceOrTab c = true := by
  rw [outdent, if_pos wide]
  refine ⟨line.take amount, (List.take_append_drop amount line).symm, ?_, fun c => of_mem_take wide⟩
  rw [List.length_take]
  exact Nat.min_eq_left (Nat.le_trans wide (List.takeWhile_prefix _).length_le)

/-- What all lines share is taken off every one of them. -/
theorem IsShared.outdented (shared : IsShared amount lines) (member : line ∈ lines) :
    Outdented amount line (outdent amount line) := by
  by_cases wide : amount ≤ width line
  · exact Or.inl (exists_front wide)
  · refine Or.inr ⟨Nat.lt_of_not_le wide, ?_, if_neg wide⟩
    by_contra content
    exact wide (shared.1 line member (by simpa using content))

/-- A line that stands alone and loses what it shares with itself is emptied only if it was
empty: with content it keeps that, and without it keeps its indentation. -/
theorem IsShared.outdent_ne_nil (shared : IsShared amount [line]) (nonempty : line ≠ []) :
    outdent amount line ≠ [] := by
  rcases shared.2 with ⟨other, member, content, same⟩ | ⟨none, -⟩
  · obtain rfl := List.mem_singleton.mp member
    intro emptied
    have rest : other.drop (width other) = other.dropWhile isSpaceOrTab :=
      drop_countWhile isSpaceOrTab other
    rw [outdent, if_pos (Nat.le_of_eq same.symm), ← same, rest] at emptied
    simp [hasContent, startsWith, emptied] at content
  · simpa [outdent, none] using nonempty

/-- Whatever the shared indentation is, stripping takes it off line by line. -/
theorem strip_eq (text : Text) : strip text = unlines (text.lines.map (outdent (common text))) := by
  unfold strip
  split
  · next none =>
    have same : outdent 0 = id := by
      funext line
      simp [outdent]
    rw [none, same, List.map_id]
    exact (joinWith_splitOn '\n' text).symm
  · rfl

end Indent

namespace LineRange

theorem not_mem_of_mem_select {range : LineRange} {source line : Text} {keepFinalNewline : Bool}
    (member : line ∈ (range.select source keepFinalNewline).lines) : '\n' ∉ line := by
  unfold select at member
  dsimp only at member
  split at member
  · cases member
  · exact not_mem_of_mem_splitOn (List.mem_of_mem_take (List.mem_of_mem_drop member))

end LineRange

namespace Snippet
variable {lines selected : List Text} {unindent : Bool}

/-- How a selection is written: nothing for no line and for a single empty one, otherwise
every line in its place, without the shared indentation if that is asked for. -/
structure WrittenAs (unindent : Bool) (selected written : List Text) : Prop where
  nothing : selected = [] ∨ selected = [[]] → written = []
  unchanged : selected ≠ [[]] → unindent = false → written = selected
  outdented : selected ≠ [[]] → unindent = true →
    ∃ amount, Indent.IsShared amount selected ∧
      List.Forall₂ (Indent.Outdented amount) selected written

/-- Lines that are joined to a snippet are the lines of the snippet, but for a single empty
one. -/
theorem contentLines_unlines (free : ∀ line ∈ lines, '\n' ∉ line) :
    FencedBlock.contentLines (unlines lines) = if lines = [[]] then [] else lines := by
  by_cases none : lines = []
  · subst none
    rfl
  have split : Text.lines (unlines lines) = lines := splitOn_joinWith none free
  unfold FencedBlock.contentLines
  by_cases blank : lines = [[]]
  · subst blank
    rfl
  · have nonempty : unlines lines ≠ [] := by
      intro empty
      rw [empty] at split
      exact blank split.symm
    simp [nonempty, blank, split]

/-- The lines of a snippet are the selected ones. -/
theorem writtenAs_extract (source : Text) (range : LineRange) (keepFinalNewline unindent : Bool) :
    WrittenAs unindent (range.select source keepFinalNewline).lines
      (FencedBlock.contentLines (extract source range keepFinalNewline unindent)) := by
  have free : ∀ line ∈ (range.select source keepFinalNewline).lines, '\n' ∉ line :=
    fun line member => LineRange.not_mem_of_mem_select member
  have snippet : range.resolve source keepFinalNewline =
    unlines (range.select source keepFinalNewline).lines := rfl
  unfold extract
  rw [snippet]
  generalize (range.select source keepFinalNewline).lines = selected at free ⊢
  by_cases none : selected = []
  · subst none
    cases unindent
    · exact ⟨fun _ => rfl, fun _ _ => rfl, nofun⟩
    · refine ⟨fun _ => rfl, nofun, fun _ _ => ⟨0, ⟨nofun, Or.inr ⟨rfl, nofun⟩⟩, ?_⟩⟩
      exact List.Forall₂.nil
  cases unindent with
  | false =>
    rw [if_neg Bool.false_ne_true, contentLines_unlines free]
    refine ⟨?_, fun nonblank _ => by rw [if_neg nonblank], nofun⟩
    rintro (empty | blank)
    · exact absurd empty none
    · rw [if_pos blank]
  | true =>
    have split : Text.lines (unlines selected) = selected := splitOn_joinWith none free
    have shared := Indent.isShared_common (unlines selected)
    rw [split] at shared
    generalize amountIs : Indent.common (unlines selected) = amount at shared
    have outdentedFree : ∀ line ∈ selected.map (Indent.outdent amount), '\n' ∉ line := by
      intro out member
      obtain ⟨line, inSelected, rfl⟩ := List.mem_map.mp member
      unfold Indent.outdent
      split
      · exact fun inside => free line inSelected (List.mem_of_mem_drop inside)
      · exact free line inSelected
    -- the second cut could lose a line only if the first had emptied a single one
    have blank_iff : selected.map (Indent.outdent amount) = [[]] ↔ selected = [[]] := by
      constructor
      · intro emptied
        obtain ⟨line, rfl, out⟩ := List.map_eq_singleton_iff.mp emptied
        by_contra nonblank
        exact shared.outdent_ne_nil (fun empty => nonblank (by rw [empty])) out
      · rintro rfl
        simp [Indent.outdent]
    rw [if_pos rfl, Indent.strip_eq, split, amountIs, contentLines_unlines outdentedFree]
    refine ⟨?_, nofun, fun nonblank _ => ⟨amount, shared, ?_⟩⟩
    · rintro (empty | blank)
      · exact absurd empty none
      · rw [if_pos (blank_iff.mpr blank)]
    · rw [if_neg (blank_iff.not.mpr nonblank)]
      rw [List.forall₂_map_right_iff, List.forall₂_same]
      exact fun line member => shared.outdented member

end Snippet

namespace FencedBlock
variable {document : Text} {span : Span} {block : FencedBlock}

/-- The body of a block of a document, made of lines: each behind the prefix, which loses the
white space at its end in front of an empty one. A newline stands before them only where the
opening line has none, and a fence behind them only where nothing closes the block. -/
def bodyOf (block : FencedBlock) (document : Text) (lines : List Text) (fence : Fence) : Text :=
  (if '\n' ∈ document.drop block.opening.stop then [] else ['\n']) ++
    (lines.map fun line =>
      (if line = [] then block.linePrefix.trimEnd else block.linePrefix ++ line) ++
        ['\n']).flatten ++
    (if block.closing.isSome then []
     else block.linePrefix ++ fence.render ++
      (if (document.take block.body.stop).getLast? = some '\n' then ['\n'] else []))

/-- A located block knows whether its opening line has a newline, and whether its body ends
with one if nothing closes it. -/
theorem ends_of_locate? (located : locate? document span = some block) :
    block.openingHasNewline = decide ('\n' ∈ document.drop block.opening.stop) ∧
      (block.closing = none →
        block.endsWithNewline = decide ((document.take block.body.stop).getLast? = some '\n')) := by
  obtain ⟨before, lines, after, rfl, placed, rfl⟩ := BlockLines.exists_of_locate? located
  constructor
  · have front : (before ++ lines.lead ++ lines.fence.render).length =
        (lines.block before).opening.stop := by
      simp [BlockLines.block, Fence.render, Nat.add_assoc]
    have behind : (before ++ lines.text ++ after).drop (lines.block before).opening.stop =
        lines.tail ++ (lines.ending ++ lines.inner ++ after) := by
      have whole : before ++ lines.text ++ after = before ++ lines.lead ++ lines.fence.render ++
          (lines.tail ++ (lines.ending ++ lines.inner ++ after)) := by
        simp [BlockLines.text, BlockLines.openingLine]
      rw [← front, whole, List.drop_left]
    rw [behind]
    cases newline : lines.newline with
    | true => simp [BlockLines.block, BlockLines.ending, newline]
    | false =>
      simp [BlockLines.block, BlockLines.ending, newline, placed.valid.unended newline,
        placed.last newline, placed.valid.tail_free]
  · intro unclosed
    have none : lines.closingRun? = none := by simpa [BlockLines.block] using unclosed
    have stop : (lines.block before).body.stop = (before ++ lines.text).length := by
      simp [BlockLines.block, none, BlockLines.bodyStart, BlockLines.text, Nat.add_assoc]
    rw [stop, List.take_left, ← beq_eq_decide]
    rfl

/-- The new body of a located block, read off its document. -/
theorem bodyText_eq_bodyOf (located : locate? document span = some block) (lines : List Text)
    (fence : Fence) : block.bodyText lines fence = block.bodyOf document lines fence := by
  obtain ⟨newline, ending⟩ := ends_of_locate? located
  have lineWritten : block.bodyLine = fun line =>
      (if line = [] then block.linePrefix.trimEnd else block.linePrefix ++ line) ++ ['\n'] := by
    funext line
    by_cases empty : line = []
    · simp [bodyLine, empty]
    · simp [bodyLine, empty]
  unfold bodyText bodyOf
  rw [newline, lineWritten]
  by_cases closed : block.closing = none
  · simp only [isClosed, closed, ending closed, decide_eq_true_eq]
  · have isSome : block.closing.isSome = true := Option.isSome_iff_ne_none.mpr closed
    simp only [isClosed, isSome, decide_eq_true_eq, ↓reduceIte]

/-- The edits that write lines into a block of a document: of its body, and of both fences where
a line could close the block. -/
def editsOf (block : FencedBlock) (document : Text) (lines : List Text) : List Edit :=
  let fence := block.fence.widenFor lines
  ⟨block.body, block.bodyOf document lines fence⟩ ::
    if fence = block.fence then []
    else (block.opening :: block.closing.toList).map fun span => ⟨span, fence.render⟩

/-- The edits of a located block, read off its document. -/
theorem edits_eq_editsOf (located : locate? document span = some block) (content : Text) :
    block.edits content = block.editsOf document (contentLines content) := by
  simp only [edits, editsOf, bodyText_eq_bodyOf located]

/-- No selected line is lost, added or moved on the way into a block. The edit of the body
writes the lines of the selection and nothing else is written but fences over fences. -/
theorem edits_of_selection (located : locate? document span = some block) (source : Text)
    (range : LineRange) (keepFinalNewline unindent : Bool) :
    ∃ written fences,
      Snippet.WrittenAs unindent (range.select source keepFinalNewline).lines written ∧
      block.edits (Snippet.extract source range keepFinalNewline unindent) =
        ⟨block.body, block.bodyOf document written (block.fence.widenFor written)⟩ :: fences ∧
      ∀ edit ∈ fences, edit.text = (block.fence.widenFor written).render ∧
        (edit.span = block.opening ∨ block.closing = some edit.span) := by
  let written := contentLines (Snippet.extract source range keepFinalNewline unindent)
  let fence := block.fence.widenFor written
  refine ⟨written, if fence = block.fence then [] else
    (block.opening :: block.closing.toList).map fun span => ⟨span, fence.render⟩,
    Snippet.writtenAs_extract source range keepFinalNewline unindent,
    edits_eq_editsOf located _, ?_⟩
  intro edit member
  split at member
  · cases member
  · obtain ⟨span, fenced, rfl⟩ := List.mem_map.mp member
    refine ⟨rfl, ?_⟩
    rcases List.mem_cons.mp fenced with same | closing
    · exact Or.inl same
    · exact Or.inr (Option.mem_toList.mp closing)

/-- A block in a quote that nothing closes, on a line that nothing ends. -/
def openQuote : Text := "a\n> ```py".toList

/-- Two characters of indentation are shared; the blank lines have fewer and keep them. -/
theorem edits_of_selection_openQuote :
    let source := "if x:\n\t\ty()\n\n \n\t  z()\n".toList
    let selected := (LineRange.select (.closed 2 5) source false).lines
    selected = ["\t\ty()".toList, [], " ".toList, "\t  z()".toList] ∧
      ∃ block, locate? openQuote ⟨4, 9⟩ = some block ∧
        ∃ written fences,
          Snippet.WrittenAs true selected written ∧
          block.edits (Snippet.extract source (.closed 2 5) false true) =
            ⟨block.body, block.bodyOf openQuote written (block.fence.widenFor written)⟩ :: fences ∧
          ∀ edit ∈ fences, edit.text = (block.fence.widenFor written).render ∧
            (edit.span = block.opening ∨ block.closing = some edit.span) := by
  let block : FencedBlock :=
    { line := 2, info := "py".toList, fence := ⟨'`', 3⟩, opening := ⟨4, 7⟩, closing := none,
      body := ⟨9, 9⟩, linePrefix := "> ".toList, openingHasNewline := false,
      endsWithNewline := false }
  have located : locate? openQuote ⟨4, 9⟩ = some block := by decide +kernel
  exact ⟨by decide +kernel, block, located, edits_of_selection located _ _ _ _⟩

end FencedBlock
end Transclusion
