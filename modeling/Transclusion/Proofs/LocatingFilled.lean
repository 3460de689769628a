import Transclusion.Proofs.Refilling

/-! Locating a block that was filled. The end of its closing fence is enough of a range to find
it again: what stands behind that fence on its line, and behind the line, plays no part. The
block found there has the fence that was chosen and the body that was written, and to fill it
again changes nothing. -/
namespace Transclusion
open Text FencedBlock

/-- Where the closing fence of a filled block ends, be it the one that was kept or one that
filling wrote, which a newline may follow. -/
def FencedBlock.filledStop (block : FencedBlock) (content : Text) : Nat :=
  let stop := Edit.moved (block.edits content) block.extent.stop
  if block.isClosed then stop else stop - if block.endsWithNewline then 1 else 0

namespace FencedBlock
variable {block : FencedBlock} {ends : Bool}

/-- What is found in a document where a block was filled: that block with the fence that was
chosen, and with the snippet as its body where it was closed. -/
structure Refound (block : FencedBlock) (content out : Text) (again : FencedBlock) : Prop where
  line : again.line = block.line
  info : again.info = block.info
  linePrefix : again.linePrefix = block.linePrefix
  marker : again.fence.marker = block.fence.marker
  length : again.fence.length = (block.fence.widenFor (contentLines content)).length
  body : block.isClosed → again.isClosed ∧
    again.body.slice out = ((contentLines content).map block.bodyLine).flatten
  /-- A run that closes the block is no shorter than the one that opens it. -/
  closing : ∀ closing, again.closing = some closing →
    again.opening.stop - again.opening.start ≤ closing.stop - closing.start
  /-- To fill the block again changes nothing. -/
  settled : Edit.applyAll (again.edits content) out = out

/-- What ends a closed block has no part in filling it. -/
theorem edits_ends (same : block.isClosed = false → ends = block.endsWithNewline)
    (content : Text) :
    { block with endsWithNewline := ends }.edits content = block.edits content := by
  cases closed : block.isClosed with
  | false => rw [same closed]
  | true =>
    have isClosed : { block with endsWithNewline := ends }.isClosed = true := closed
    simp only [edits, bodyText, closed, isClosed, ↓reduceIte]
    rfl

theorem filledStop_ends (same : block.isClosed = false → ends = block.endsWithNewline)
    (content : Text) :
    { block with endsWithNewline := ends }.filledStop content = block.filledStop content := by
  cases closed : block.isClosed with
  | false => rw [same closed]
  | true =>
    have isClosed : { block with endsWithNewline := ends }.isClosed = true := closed
    simp only [filledStop, edits_ends same, closed, isClosed, ↓reduceIte]
    rfl

end FencedBlock

namespace BlockLines
variable {lines : BlockLines} {before after : Text} {range : Span}

/-- The lines up to the end of the closing run, all of them if there is none. -/
def upToClosing (lines : BlockLines) : BlockLines :=
  match lines.closingRun? with
  | none => lines
  | some (place, run) => { lines with inner := lines.inner.take (lines.lastStart + place + run) }

theorem ClosedBy.upToClosing_eq {run : Nat} {front rest : Text}
    (closed : lines.ClosedBy run front rest) : lines.upToClosing =
      { lines with inner := lines.body ++ (front ++ List.replicate run lines.fence.marker) } := by
  have cut : lines.inner.take (lines.lastStart + front.length + run) =
      lines.body ++ (front ++ List.replicate run lines.fence.marker) := by
    have length : lines.lastStart + front.length + run =
        (lines.body ++ (front ++ List.replicate run lines.fence.marker)).length := by
      simp [← closed.body_length, Nat.add_assoc]
    have whole : lines.inner =
        (lines.body ++ (front ++ List.replicate run lines.fence.marker)) ++ rest := by
      conv => lhs; rw [closed.whole]
      simp
    rw [length, whole]
    exact List.take_left
  simp [upToClosing, closed.found, cut]

/-- The closing run is found without what stands behind it. -/
theorem closingRun?_upToClosing (valid : lines.Valid) :
    lines.upToClosing.closingRun? = lines.closingRun? ∧
      lines.upToClosing.lastStart = lines.lastStart := by
  cases found : lines.closingRun? with
  | none => simp [upToClosing, found]
  | some closing =>
    obtain ⟨place, run⟩ := closing
    obtain ⟨front, rest, rfl, closed⟩ := exists_closedBy valid found
    have positive := Nat.lt_of_lt_of_le valid.positive closed.enough
    rw [closed.upToClosing_eq, ← closed.body_length]
    exact closed.again _ lines.body [] run rfl rfl closed.body_ends positive closed.enough
      (Or.inr rfl) (by simp)

theorem exists_upToClosing (lines : BlockLines) :
    ∃ inner rest, lines.upToClosing = { lines with inner } ∧ lines.inner = inner ++ rest := by
  unfold upToClosing
  split
  · exact ⟨lines.inner, [], rfl, by simp⟩
  · exact ⟨_, _, rfl, (List.take_append_drop _ _).symm⟩

/-- The block of the lines up to the closing run differs at most in what ends it, and only
where it is closed. -/
theorem block_upToClosing (valid : lines.Valid) (before : Text) : ∃ ends,
    lines.upToClosing.block before = { lines.block before with endsWithNewline := ends } ∧
      ((lines.block before).isClosed = false → ends = (lines.block before).endsWithNewline) := by
  obtain ⟨sameRun, sameStart⟩ := closingRun?_upToClosing valid
  refine ⟨(lines.upToClosing.block before).endsWithNewline, ?_⟩
  cases found : lines.closingRun? with
  | none => simp [upToClosing, found]
  | some closing =>
    refine ⟨?_, fun unclosed => ?_⟩
    · simp only [block, sameRun, sameStart, found]
      simp [upToClosing, found, bodyStart, openingLine, ending]
    · simp [FencedBlock.isClosed, block, found] at unclosed

/-- The lines up to the closing run end with the fence that closes them, or with the body. -/
theorem extent_stop_eq (valid : lines.Valid) (before : Text) :
    (lines.block before).extent.stop = (before ++ lines.upToClosing.text).length := by
  rw [List.length_append, length_text]
  cases found : lines.closingRun? with
  | none => simp [extent, block, upToClosing, found, bodyStart, Nat.add_assoc]
  | some closing =>
    obtain ⟨place, run⟩ := closing
    obtain ⟨front, rest, rfl, closed⟩ := exists_closedBy valid found
    rw [closed.upToClosing_eq]
    simp [extent, block, found, bodyStart, openingLine, ending, ← closed.body_length, Nat.add_assoc]

/-- A range that ends with the closing fence picks out the lines up to there. -/
theorem Placed.upToClosing (placed : lines.Placed before after range) :
    ∃ rest, lines.text = lines.upToClosing.text ++ rest ∧
      lines.upToClosing.Placed before (rest ++ after)
        ⟨range.start, (lines.block before).extent.stop⟩ := by
  rw [extent_stop_eq placed.valid]
  obtain ⟨inner, rest, cut, whole⟩ := lines.exists_upToClosing
  obtain ⟨valid, startsLine, last, starts, -⟩ := placed
  rw [cut]
  refine ⟨rest, by simp [text, openingLine, ending, whole], ?_, startsLine, ?_, starts, ?_⟩
  · refine { valid with unended := fun ended => ?_ }
    exact (List.append_eq_nil_iff.mp (whole.symm.trans (valid.unended ended))).1
  · intro ended
    rw [(List.append_eq_nil_iff.mp (whole.symm.trans (valid.unended ended))).2, last ended]
    rfl
  · simp only [bodyStart, List.length_append, length_text]
    omega

/-- The filled lines are picked out by a range that ends with them. -/
theorem Placed.refill (placed : lines.Placed before after range) (content : Text) :
    (lines.refill content).Placed before (lines.newlineBehind ++ after)
      ⟨range.start, (before ++ (lines.refill content).text).length⟩ := by
  refine ⟨refill_valid placed.valid content, placed.startsLine, nofun, placed.starts, ?_⟩
  simp only [bodyStart, List.length_append, length_text]
  omega

/-- Making the replacements of a block in its document leaves the filled lines in its place. -/
theorem splice_document (valid : lines.Valid) (before content after : Text) :
    Edit.splice 0 ((lines.block before).replacements content) (before ++ (lines.text ++ after)) =
      before ++ ((lines.refill content).text ++ (lines.newlineBehind ++ after)) := by
  have spans := replacements_spans valid before content
  have inFront : ∀ edit ∈ (lines.block before).replacements content,
      0 + before.length ≤ edit.span.start := by
    intro edit member
    have opening : before.length ≤ (lines.block before).opening.start := Nat.le_add_right _ _
    have := spans edit member
    omega
  have fill : Edit.splice before.length ((lines.block before).replacements content ++ [])
      (lines.text ++ after) = _ :=
    splice_replacements valid before content after (by simp) (by simp)
  rw [Edit.splice_skip before inFront fun edit member => (spans edit member).2.1, Nat.zero_add]
  rw [List.append_nil] at fill
  rw [fill]
  rfl

theorem applyAll_edits (valid : lines.Valid) (before content after : Text) :
    Edit.applyAll ((lines.block before).edits content) (before ++ lines.text ++ after) =
      before ++ (lines.refill content).text ++ (lines.newlineBehind ++ after) := by
  have inside : ∀ edit ∈ (lines.block before).replacements content,
      edit.span.stop ≤ (before ++ (lines.text ++ after)).length := by
    intro edit member
    have := (replacements_spans valid before content edit member).2.2.2
    simp only [List.length_append] at this ⊢
    omega
  rw [List.append_assoc, List.append_assoc, ← splice_document valid]
  exact Edit.applyAll_eq_splice (replacements_inOrder valid before content) inside
    ((lines.block before).replacements_perm content).symm

/-- Where the lines of a block end with it, the filled ones end with its closing fence. -/
theorem filledStop_eq (valid : lines.Valid) (before content : Text)
    (whole : (lines.block before).extent.stop = (before ++ lines.text).length) :
    (lines.block before).filledStop content = (before ++ (lines.refill content).text).length := by
  have listed := (lines.block before).replacements_perm content
  have inside : ∀ edit ∈ (lines.block before).replacements content,
      edit.span.stop ≤ (before ++ lines.text).length := fun edit member =>
    (replacements_spans valid before content edit member).2.2.2
  have spliced := splice_document valid before content []
  rw [List.append_nil, List.append_nil] at spliced
  have lengths : (Edit.splice 0 _ (before ++ lines.text)).length + _ = _ :=
    Edit.length_splice (replacements_inOrder valid before content) (fun _ _ => Nat.zero_le _)
      fun edit member => by rw [Nat.zero_add]; exact inside edit member
  rw [spliced] at lengths
  have moved : Edit.moved ((lines.block before).replacements content ++ [])
      (lines.block before).extent.stop = _ :=
    Edit.moved_append (fun edit member => by rw [whole]; exact inside edit member) (by simp)
      lengths (Nat.le_of_eq whole.symm)
  rw [List.append_nil, whole, Nat.sub_self, Nat.add_zero, Edit.moved_perm listed] at moved
  have total : (before ++ ((lines.refill content).text ++ lines.newlineBehind)).length =
      (before ++ (lines.refill content).text).length + lines.newlineBehind.length := by
    rw [← List.append_assoc, List.length_append]
  rw [filledStop, whole, moved, total, length_newlineBehind valid before]
  cases (lines.block before).isClosed
  · exact Nat.add_sub_cancel _ _
  · rfl

/-- The closing run of a block is no shorter than its opening run. -/
theorem length_le_closing (valid : lines.Valid) {closing : Span}
    (isClosing : (lines.block before).closing = some closing) :
    lines.fence.length ≤ closing.stop - closing.start := by
  cases found : lines.closingRun? with
  | none => simp [block, found] at isClosing
  | some pair =>
    obtain ⟨place, run⟩ := pair
    obtain ⟨front, rest, rfl, closed⟩ := exists_closedBy valid found
    simp only [block, found, Option.map_some, Option.some.injEq] at isClosing
    subst isClosing
    rw [Nat.add_sub_cancel_left]
    exact closed.enough

/-- The lines of a filled block are what is found there. -/
theorem refound_refill (valid : lines.Valid) (before content after : Text) :
    (lines.block before).Refound content (before ++ (lines.refill content).text ++ after)
      ((lines.refill content).block before) := by
  have refilled := refill_valid valid content
  refine ⟨rfl, rfl, rfl, Fence.widenFor_marker _ _, rfl, ?_, ?_, ?_⟩
  · intro isClosed
    rcases body_refill valid content with ⟨body, closed⟩ | ⟨-, unclosed⟩
    · refine ⟨by simpa [FencedBlock.isClosed, block] using closed, ?_⟩
      rw [slice_body refilled, body]
      rfl
    · simp [FencedBlock.isClosed, block, unclosed] at isClosed
  · intro closing isClosing
    have enough := length_le_closing refilled isClosing
    have opening : ((lines.refill content).block before).opening.stop =
        ((lines.refill content).block before).opening.start +
          (lines.refill content).fence.length := rfl
    omega
  · have same := edits_refill valid content before after
    exact Edit.applyAll_of_slices (fun edit member => (same edit member).1)
      fun edit member => (same edit member).2

end BlockLines

namespace FencedBlock

/-- A block that was filled is found again up to the end of its closing fence. -/
theorem located_again {source : Text} {range : Span} {block : FencedBlock}
    (located : locate? source range = some block) (content : Text) :
    let out := Edit.applyAll (block.edits content) source
    ∃ again, locate? out ⟨range.start, block.filledStop content⟩ = some again ∧
      block.Refound content out again := by
  obtain ⟨before, lines, after, rfl, placed⟩ :=
    BlockLines.exists_placed (onOpeningLine_of_locate? located)
  obtain rfl : lines.block before = block :=
    Option.some.inj (placed.locate?_eq.symm.trans located)
  obtain ⟨rest, whole, cut⟩ := placed.upToClosing
  obtain ⟨ends, sameBlock, sameEnd⟩ := BlockLines.block_upToClosing placed.valid before
  have made := BlockLines.applyAll_edits cut.valid before content (rest ++ after)
  have found := (cut.refill content).locate?_eq
  have refound := BlockLines.refound_refill cut.valid before content
    (lines.upToClosing.newlineBehind ++ (rest ++ after))
  have stop := BlockLines.filledStop_eq cut.valid before content (by
    rw [sameBlock]
    exact BlockLines.extent_stop_eq placed.valid before)
  rw [← stop, ← made, sameBlock, edits_ends sameEnd, filledStop_ends sameEnd] at found
  rw [← made, sameBlock, edits_ends sameEnd] at refound
  have sameSource : before ++ lines.text ++ after =
      before ++ lines.upToClosing.text ++ (rest ++ after) := by
    rw [whole]
    simp only [List.append_assoc]
  rw [sameSource]
  exact ⟨_, found, refound.line, refound.info, refound.linePrefix, refound.marker, refound.length,
    refound.body, refound.closing, refound.settled⟩

/-- A block in a quote, whose closing run is longer than its opening one and has blanks
behind it. -/
def quoted : Text := "a\n> ```js\n> old\n> `````  \nb\n".toList

/-- Both runs have to be widened, and the range ends in front of the blanks. -/
theorem located_again_quoted :
    let content := "x\n`````".toList
    ∃ block, locate? quoted ⟨4, 25⟩ = some block ∧ block.filledStop content = 33 ∧
      ∃ again, locate? (Edit.applyAll (block.edits content) quoted)
          ⟨4, block.filledStop content⟩ = some again ∧
        block.Refound content (Edit.applyAll (block.edits content) quoted) again := by
  let block : FencedBlock :=
    { line := 2, info := "js".toList, fence := ⟨'`', 3⟩, opening := ⟨4, 7⟩,
      closing := some ⟨18, 23⟩, body := ⟨10, 16⟩, linePrefix := "> ".toList,
      openingHasNewline := true, endsWithNewline := false }
  have located : locate? quoted ⟨4, 25⟩ = some block := by decide +kernel
  exact ⟨block, located, by decide +kernel, located_again located "x\n`````".toList⟩

end FencedBlock
end Transclusion
