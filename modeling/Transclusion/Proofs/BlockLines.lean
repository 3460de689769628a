import Transclusion.Proofs.ClosingLine

/-! A located block as a part of its document. The lines of a block alone decide what is
found; what stands before them moves the positions, and what stands behind them plays no
part. Every range that starts on an opening line has such lines around it. -/
namespace Transclusion
open Text FencedBlock

/-- The part of a document that a fenced block takes up, from the start of its opening
line to the end of its range. -/
structure BlockLines where
  /-- What stands in front of the opening fence. -/
  lead : Text
  fence : Fence
  /-- What stands behind the opening fence on its line. -/
  tail : Text
  /-- The opening line is ended by a newline. -/
  newline : Bool
  inner : Text

namespace BlockLines

def openingLine (lines : BlockLines) : Text := lines.lead ++ lines.fence.render ++ lines.tail

def ending (lines : BlockLines) : Text := if lines.newline then ['\n'] else []

def text (lines : BlockLines) : Text := lines.openingLine ++ lines.ending ++ lines.inner

/-- The position of the body when the block stands behind `before`. -/
def bodyStart (lines : BlockLines) (before : Text) : Nat :=
  before.length + lines.openingLine.length + lines.ending.length

/-- The opening fence is a whole run on a line of its own, and only the end of the
document leaves that line without a newline. -/
structure Valid (lines : BlockLines) : Prop where
  lead_free : '\n' ∉ lines.lead
  marker : isMarker lines.fence.marker = true
  positive : 0 < lines.fence.length
  tail_free : '\n' ∉ lines.tail
  maximal : lines.tail.head? ≠ some lines.fence.marker
  unended : lines.newline = false → lines.inner = []

def isLineEnd (c : Char) : Bool := c = '\n' || c = '\r'

/-- What follows the opening line, without the line ends behind it. -/
def content (lines : BlockLines) : Text := dropEndWhile isLineEnd lines.inner

/-- Where the last line of the content starts. -/
def lastStart (lines : BlockLines) : Nat := lineStart lines.content lines.content.length

/-- The closing run on the last line: its place there and its length. -/
def closingRun? (lines : BlockLines) : Option (Nat × Nat) :=
  lines.fence.closing? (Container.ofLead lines.lead) (lines.content.drop lines.lastStart)

/-- The block that is located when the lines stand behind `before`. -/
def block (lines : BlockLines) (before : Text) : FencedBlock where
  line := before.count '\n' + 1
  info := Text.trim lines.tail
  fence := lines.fence
  opening := ⟨before.length + lines.lead.length,
    before.length + lines.lead.length + lines.fence.length⟩
  closing := lines.closingRun?.map fun (place, run) =>
    ⟨lines.bodyStart before + lines.lastStart + place,
      lines.bodyStart before + lines.lastStart + place + run⟩
  body := ⟨lines.bodyStart before, lines.bodyStart before +
    if lines.closingRun?.isSome then lines.lastStart else lines.inner.length⟩
  linePrefix := Container.continuation lines.lead
  openingHasNewline := lines.newline
  endsWithNewline := (before ++ lines.text).getLast? == some '\n'

variable {lines : BlockLines} {before after : Text}

theorem Valid.openingLine_free (valid : lines.Valid) : '\n' ∉ lines.openingLine := by
  have noNewline := (isMarker_not_space valid.marker).2.2.2.1
  simp only [openingLine, Fence.render, List.mem_append, List.mem_replicate, not_or]
  exact ⟨⟨valid.lead_free, fun ⟨_, same⟩ => noNewline same.symm⟩, valid.tail_free⟩

/-- The opening fence is never empty. -/
theorem Valid.render_eq (valid : lines.Valid) :
    lines.fence.render = lines.fence.marker ::
      List.replicate (lines.fence.length - 1) lines.fence.marker := by
  unfold Fence.render
  obtain ⟨n, positive⟩ := Nat.exists_eq_add_of_lt valid.positive
  simp [positive, List.replicate_succ]

theorem length_openingLine (lines : BlockLines) : lines.openingLine.length =
    lines.lead.length + lines.fence.length + lines.tail.length := by
  simp [openingLine, Fence.render, Nat.add_assoc]

theorem length_text (lines : BlockLines) : lines.text.length =
    lines.openingLine.length + lines.ending.length + lines.inner.length := by
  simp [text, Nat.add_assoc]

theorem bodyStart_eq (lines : BlockLines) (before : Text) :
    lines.bodyStart before = (before ++ lines.openingLine ++ lines.ending).length := by
  simp [bodyStart, Nat.add_assoc]

/-- What makes up the inside of a block: whole lines, a last line that ends in no line end,
and line ends behind it. -/
structure LastLine (lines : BlockLines) (front line ends : Text) : Prop where
  whole : lines.inner = front ++ line ++ ends
  front_ends : EndsLine front
  line_free : '\n' ∉ line
  kept : ∃ c, line.getLast? = some c ∧ isLineEnd c = false
  ends_all : ∀ c ∈ ends, isLineEnd c = true

/-- The closing run is looked for on the last line. -/
theorem LastLine.closingRun?_eq {front line ends : Text} (last : lines.LastLine front line ends) :
    lines.content = front ++ line ∧ lines.lastStart = front.length ∧
      lines.closingRun? = lines.fence.closing? (Container.ofLead lines.lead) line := by
  obtain ⟨whole, frontEnds, free, ⟨c, lastChar, kept⟩, endsAll⟩ := last
  have content : lines.content = front ++ line := by
    rw [BlockLines.content, whole, dropEndWhile_append_of_all endsAll]
    refine dropEndWhile_of_getLast? ?_ kept
    simp [List.getLast?_append, lastChar]
  have start : lines.lastStart = front.length := by
    rw [lastStart, content, lineStart_length frontEnds free]
  exact ⟨content, start, by rw [closingRun?, content, start, List.drop_left]⟩

/-- A block that has content has a last line. -/
theorem exists_lastLine (nonempty : lines.content ≠ []) :
    ∃ front line ends, lines.LastLine front line ends := by
  obtain ⟨ends, whole, endsAll⟩ := exists_dropEndWhile isLineEnd lines.inner
  obtain ⟨front, line, split, frontEnds, free⟩ := exists_line_at_end lines.content
  obtain ⟨c, last⟩ : ∃ c, lines.content.getLast? = some c :=
    ⟨_, List.getLast?_eq_some_getLast nonempty⟩
  have kept := dropEndWhile_last_not last
  have lineLast : line.getLast? = some c := by
    have lineNonempty : line ≠ [] := by
      rintro rfl
      -- the content would end in the newline in front of its last line
      rw [List.append_nil] at split
      rcases frontEnds with empty | newline
      · exact nonempty (split.trans empty)
      · rw [split, newline] at last
        rw [← Option.some.inj last] at kept
        simp [isLineEnd] at kept
    rw [← last, split, List.getLast?_append_of_ne_nil _ lineNonempty]
  exact ⟨front, line, ends, by rw [← split]; exact whole, frontEnds, free,
    ⟨c, lineLast, kept⟩, endsAll⟩

/-- Content stands behind a newline. -/
theorem Valid.newline_of_content (valid : lines.Valid) (nonempty : lines.content ≠ []) :
    lines.newline = true := by
  by_contra unended
  simp [content, valid.unended (by simpa using unended), dropEndWhile] at nonempty

/-- A closing run is part of the content. -/
theorem Valid.content_ne_nil (valid : lines.Valid) {closing : Nat × Nat}
    (found : lines.closingRun? = some closing) : lines.content ≠ [] := by
  intro empty
  rw [closingRun?, empty, List.drop_nil, Fence.closing?_nil valid.positive] at found
  cases found

/-- A text with content has its last line behind the opening line. -/
private theorem last_line_inside (before : Text) (valid : lines.Valid)
    (nonempty : lines.content ≠ []) :
    dropEndWhile isLineEnd (before ++ lines.text) =
        before ++ lines.openingLine ++ lines.ending ++ lines.content ∧
      lineStart (before ++ lines.openingLine ++ lines.ending ++ lines.content)
          (before ++ lines.openingLine ++ lines.ending ++ lines.content).length =
        lines.bodyStart before + lines.lastStart := by
  have ended := valid.newline_of_content nonempty
  obtain ⟨front, line, ends, last⟩ := exists_lastLine nonempty
  obtain ⟨content, start, -⟩ := last.closingRun?_eq
  obtain ⟨c, lastChar, kept⟩ := last.kept
  have regrouped : before ++ lines.text =
      (before ++ lines.openingLine ++ lines.ending ++ lines.content) ++ ends := by
    simp [text, last.whole, content]
  constructor
  · rw [regrouped, dropEndWhile_append_of_all last.ends_all]
    refine dropEndWhile_of_getLast? ?_ kept
    simp [content, List.getLast?_append, lastChar]
  · have frontEnds : EndsLine (before ++ lines.openingLine ++ lines.ending ++ front) := by
      rw [ending, ended]
      exact (endsLine_concat (before ++ lines.openingLine)).append last.front_ends
    rw [content, ← List.append_assoc, lineStart_length frontEnds last.line_free, bodyStart_eq,
      start]
    exact List.length_append

/-- Without content the last line is the opening line itself. -/
private theorem last_line_before (valid : lines.Valid) (startsLine : EndsLine before)
    (empty : lines.content = []) :
    lineStart (dropEndWhile isLineEnd (before ++ lines.text))
        (dropEndWhile isLineEnd (before ++ lines.text)).length < lines.bodyStart before := by
  obtain ⟨dropped, whole, allEnds⟩ := exists_dropEndWhile isLineEnd lines.inner
  obtain ⟨droppedTail, wholeTail, tailEnds⟩ := exists_dropEndWhile isLineEnd lines.tail
  let kept := lines.lead ++ lines.fence.render ++ dropEndWhile isLineEnd lines.tail
  have regrouped : before ++ lines.text =
      (before ++ kept) ++ (droppedTail ++ lines.ending ++ dropped) := by
    have innerDropped : lines.inner = dropped := by
      rw [show dropEndWhile isLineEnd lines.inner = [] from empty] at whole
      exact whole
    simp only [text, openingLine, kept, List.append_assoc]
    rw [← List.append_assoc (dropEndWhile isLineEnd lines.tail), ← wholeTail, innerDropped]
  have allDropped : ∀ c ∈ droppedTail ++ lines.ending ++ dropped, isLineEnd c = true := by
    intro c member
    simp only [List.mem_append] at member
    rcases member with (inTail | inEnding) | inInner
    · exact tailEnds c inTail
    · unfold ending at inEnding
      split at inEnding
      · rw [List.mem_singleton.mp inEnding]
        rfl
      · simp at inEnding
    · exact allEnds c inInner
  have keptWhole : dropEndWhile isLineEnd (before ++ kept) = before ++ kept := by
    cases last : (dropEndWhile isLineEnd lines.tail).getLast? with
    | none =>
      have noTail := List.getLast?_eq_none_iff.mp last
      have marker := isMarker_not_space valid.marker
      refine dropEndWhile_of_getLast? (x := lines.fence.marker) ?_ ?_
      · simp [kept, noTail, Fence.render, List.getLast?_append, List.getLast?_replicate,
          Nat.ne_of_gt valid.positive]
      · simp [isLineEnd, marker]
    | some c =>
      refine dropEndWhile_of_getLast? ?_ (dropEndWhile_last_not last)
      simp [kept, List.getLast?_append, last]
  have free : '\n' ∉ kept := by
    have openingFree := valid.openingLine_free
    simp only [openingLine, List.mem_append, not_or] at openingFree
    simp only [kept, List.mem_append, not_or]
    refine ⟨openingFree.1, fun member => openingFree.2 ?_⟩
    rw [wholeTail]
    exact List.mem_append_left _ member
  rw [regrouped, dropEndWhile_append_of_all allDropped, keptWhole, lineStart_length startsLine free]
  have positive := valid.positive
  simp only [bodyStart, length_openingLine]
  omega

/-- The closing run is looked for on the last line of the content. -/
theorem closing_search (valid : lines.Valid) (startsLine : EndsLine before) :
    let content := dropEndWhile isLineEnd (before ++ lines.text)
    let start := lineStart content content.length
    (if lines.bodyStart before ≤ start then
        lines.fence.closing? (Container.ofLead lines.lead) (content.drop start)
      else none) = lines.closingRun? ∧
      (lines.closingRun?.isSome → start = lines.bodyStart before + lines.lastStart) := by
  by_cases empty : lines.content = []
  · have early := last_line_before valid startsLine empty
    have none : lines.closingRun? = none := by
      simp [closingRun?, empty, Fence.closing?_nil valid.positive]
    simp only [Nat.not_le.mpr early, ↓reduceIte, none, true_and]
    simp
  · obtain ⟨trimmed, start⟩ := last_line_inside before valid empty
    simp only [trimmed, start, Nat.le_add_right, ↓reduceIte]
    refine ⟨?_, fun _ => trivial⟩
    rw [bodyStart_eq, List.drop_length_add_append]
    rfl

/-- The lines stand in a document, behind whole lines, and a range picks them out: it
starts in front of the fence and reaches up to the end of the lines. -/
structure Placed (lines : BlockLines) (before after : Text) (range : Span) : Prop where
  valid : lines.Valid
  startsLine : EndsLine before
  last : lines.newline = false → after = []
  starts : ∃ offset, offset ≤ lines.lead.length ∧ range.start = before.length + offset ∧
    ∀ c ∈ lines.lead.drop offset, isMarker c = false
  reaches : min (max range.stop (lines.bodyStart before)) (before ++ lines.text ++ after).length =
    (before ++ lines.text).length

/-- The lines start where the line of the range does. -/
theorem Placed.lineStart_eq {range : Span} (placed : lines.Placed before after range) :
    lineStart (before ++ lines.text ++ after) range.start = before.length := by
  obtain ⟨offset, inLead, start, -⟩ := placed.starts
  have inLine : '\n' ∉ lines.lead.take offset := fun member =>
    placed.valid.lead_free (List.mem_of_mem_take member)
  have found := lineStart_append (lines.lead.drop offset ++ (lines.fence.render ++
    (lines.tail ++ (lines.ending ++ lines.inner ++ after)))) placed.startsLine inLine
  rw [List.length_take, Nat.min_eq_left inLead, List.append_assoc,
    ← List.append_assoc (lines.lead.take offset), List.take_append_drop] at found
  rw [start]
  simpa only [text, openingLine, List.append_assoc] using found

section Reading
variable (valid : lines.Valid)
include valid

/-- The fence is the first run of markers behind any position of the lead that has none
before it. -/
private theorem offset_add_gap {offset : Nat} (inLead : offset ≤ lines.lead.length)
    (first : ∀ c ∈ lines.lead.drop offset, isMarker c = false) :
    offset + Text.countWhile (!isMarker ·) (lines.openingLine.drop offset) = lines.lead.length := by
  have behind : lines.openingLine.drop offset =
      lines.lead.drop offset ++ (lines.fence.render ++ lines.tail) := by
    rw [openingLine, List.append_assoc, List.drop_append_of_le_length inLead]
  rw [behind, countWhile_append (by simpa using first)
    (by rw [valid.render_eq]; simp [valid.marker]), List.length_drop]
  omega

private theorem drop_lead : lines.openingLine.drop lines.lead.length = lines.fence.marker ::
    (List.replicate (lines.fence.length - 1) lines.fence.marker ++ lines.tail) := by
  rw [openingLine, List.append_assoc, List.drop_left' rfl, valid.render_eq]
  rfl

private theorem countWhile_fence : Text.countWhile (· = lines.fence.marker) (lines.fence.marker ::
    (List.replicate (lines.fence.length - 1) lines.fence.marker ++ lines.tail)) =
      lines.fence.length := by
  rw [← List.cons_append, ← valid.render_eq]
  refine countWhile_replicate (by simp) ?_
  have maximal := valid.maximal
  cases tail : lines.tail with
  | nil => rfl
  | cons c rest => simpa [tail] using maximal

private theorem drop_fence : (lines.fence.marker ::
    (List.replicate (lines.fence.length - 1) lines.fence.marker ++ lines.tail)).drop
      lines.fence.length = lines.tail := by
  rw [← List.cons_append, ← valid.render_eq]
  exact List.drop_left' (by simp [Fence.render])

/-- The opening line ends where it says, at a newline or with the document. -/
private theorem takeWhile_opening (before : Text) (last : lines.newline = false → after = []) :
    ((before ++ lines.text ++ after).drop before.length).takeWhile (· ≠ '\n') =
        lines.openingLine ∧
      decide (before.length + lines.openingLine.length <
        (before ++ lines.text ++ after).length) = lines.newline := by
  have doc : before ++ lines.text ++ after = before ++ (lines.openingLine ++
      (lines.ending ++ lines.inner ++ after)) := by
    simp [text]
  rw [doc, List.drop_left' rfl]
  cases ended : lines.newline with
  | false =>
    have behind : lines.ending ++ lines.inner ++ after = [] := by
      simp [ending, ended, valid.unended ended, last ended]
    exact ⟨takeWhile_line valid.openingLine_free (Or.inl behind), by simp [behind]⟩
  | true =>
    refine ⟨takeWhile_line valid.openingLine_free (Or.inr ?_), ?_⟩
    · simp [ending, ended]
    · simp [ending, ended]

end Reading

/-- What is located at the range is the block of the lines. -/
theorem Placed.locate?_eq {range : Span} (placed : lines.Placed before after range) :
    locate? (before ++ lines.text ++ after) range = some (lines.block before) := by
  have start := placed.lineStart_eq
  obtain ⟨valid, startsLine, last, ⟨offset, inLead, from_, first⟩, reaches⟩ := placed
  obtain ⟨rangeStart, stop⟩ := range
  obtain rfl : rangeStart = before.length + offset := from_
  obtain ⟨opening, hasNewline⟩ := takeWhile_opening valid before last
  have fenceAt := offset_add_gap valid inLead first
  have atFence := drop_lead valid
  have run := countWhile_fence valid
  have behindFence := drop_fence valid
  have bodyAt : (if lines.newline = true then before.length + lines.openingLine.length + 1
      else before.length + lines.openingLine.length) = lines.bodyStart before := by
    unfold bodyStart ending
    split <;> simp
  have upTo : (before ++ lines.text ++ after).take (before ++ lines.text).length =
      before ++ lines.text := List.take_left' rfl
  have beforeOnly : (before ++ lines.text ++ after).take before.length = before := by
    rw [List.append_assoc]
    exact List.take_left' rfl
  have leadOnly : lines.openingLine.take lines.lead.length = lines.lead := by
    rw [openingLine, List.append_assoc]
    exact List.take_left' rfl
  have sameEnds : (fun c : Char => decide (c = '\n') || decide (c = '\r')) = isLineEnd := rfl
  obtain ⟨search, startSame⟩ := closing_search valid startsLine
  unfold locate?
  simp only [start, opening, Nat.add_sub_cancel_left, fenceAt, atFence, run, hasNewline, bodyAt,
    reaches, upTo, beforeOnly, leadOnly, behindFence, sameEnds, search]
  cases found : lines.closingRun? with
  | none => simp [block, found, bodyStart, text, Nat.add_assoc]
  | some _ => simp [block, found, startSame (by simp [found])]

/-- A marker stands on the line of a position, there or behind it. -/
def OnOpeningLine (text : Text) (position : Nat) : Prop :=
  ((text.drop position).takeWhile (· ≠ '\n')).any isMarker

instance (text : Text) (position : Nat) : Decidable (OnOpeningLine text position) :=
  inferInstanceAs (Decidable (_ = true))

/-- The rest of an opening line is cut at its fence. -/
private theorem exists_fence {rest : Text} (marked : rest.any isMarker = true) :
    ∃ gap fence tail, rest = gap ++ Fence.render fence ++ tail ∧ 0 < fence.length ∧
      isMarker fence.marker = true ∧ (∀ c ∈ gap, isMarker c = false) ∧
      tail.head? ≠ some fence.marker := by
  have split := List.takeWhile_append_dropWhile (p := (!isMarker ·)) (l := rest)
  have gapFree : ∀ c ∈ rest.takeWhile (!isMarker ·), isMarker c = false := by
    intro c member
    simpa using List.mem_takeWhile_imp member
  cases fenced : rest.dropWhile (!isMarker ·) with
  | nil =>
    obtain ⟨c, member, marker⟩ := List.any_eq_true.mp marked
    rw [fenced, List.append_nil] at split
    rw [← split] at member
    simp [gapFree c member] at marker
  | cons marker more =>
    have isOne := List.head?_dropWhile_not (!isMarker ·) rest
    rw [fenced] at isOne split
    obtain ⟨tail, run, -, stop⟩ := exists_run marker (marker :: more)
    refine ⟨rest.takeWhile (!isMarker ·), ⟨marker, Text.countWhile (· = marker) (marker :: more)⟩,
      tail, ?_, by simp [Text.countWhile], by simpa using isOne, gapFree, stop⟩
    rw [Fence.render, List.append_assoc, ← run, split]

/-- Every range that starts on an opening line picks out the lines of a block. -/
theorem exists_placed {text : Text} {range : Span} (opening : OnOpeningLine text range.start) :
    ∃ before lines after, text = before ++ lines.text ++ after ∧
      Placed lines before after range := by
  have bound : range.start ≤ text.length := by
    by_cases bound : range.start ≤ text.length
    · exact bound
    · rw [OnOpeningLine, List.drop_eq_nil_of_le (by omega)] at opening
      simp at opening
  obtain ⟨before, line, rest, rfl, startsLine, lineFree, length⟩ := exists_line bound
  rw [OnOpeningLine, ← length, ← List.length_append, List.drop_left' rfl] at opening
  obtain ⟨gap, fence, tail, openRest, positive, marker, gapFree, maximal⟩ := exists_fence opening
  have openFree : '\n' ∉ gap ++ fence.render ++ tail := by
    rw [← openRest]
    intro member
    simpa using List.mem_takeWhile_imp member
  simp only [List.mem_append, not_or] at openFree
  have restSplit := List.takeWhile_append_dropWhile (p := (· ≠ '\n')) (l := rest)
  have starts : ∃ offset, offset ≤ (line ++ gap).length ∧ range.start = before.length + offset ∧
      ∀ c ∈ (line ++ gap).drop offset, isMarker c = false := by
    refine ⟨line.length, by simp, length.symm, ?_⟩
    rw [List.drop_left' rfl]
    exact gapFree
  rw [openRest] at restSplit
  have valid : ∀ newline inner, (newline = false → inner = []) →
      Valid ⟨line ++ gap, fence, tail, newline, inner⟩ := fun newline inner unended =>
    ⟨by simp [lineFree, openFree.1.1], marker, positive, openFree.2, maximal, unended⟩
  cases behind : rest.dropWhile (· ≠ '\n') with
  | nil =>
    rw [behind] at restSplit
    refine ⟨before, ⟨line ++ gap, fence, tail, false, []⟩, [], ?_, valid _ _ (fun _ => rfl),
      startsLine, fun _ => rfl, starts, ?_⟩
    · simp [← restSplit, BlockLines.text, openingLine, ending]
    · simp only [bodyStart, BlockLines.text, ending, Bool.false_eq_true, ↓reduceIte,
        List.length_append, List.length_nil]
      omega
  | cons c body =>
    have isNewline := List.head?_dropWhile_not (fun c : Char => decide (c ≠ '\n')) rest
    rw [behind] at isNewline restSplit
    obtain rfl : c = '\n' := by simpa using isNewline
    let bodyAt := before.length + (line ++ gap ++ fence.render ++ tail).length + 1
    let kept := min (max range.stop bodyAt) (bodyAt + body.length) - bodyAt
    refine ⟨before, ⟨line ++ gap, fence, tail, true, body.take kept⟩, body.drop kept, ?_,
      valid _ _ nofun, startsLine,
      nofun, starts, ?_⟩
    · simp [← restSplit, BlockLines.text, openingLine, ending]
    · simp only [BlockLines.text, bodyStart, openingLine, ending, ↓reduceIte, List.length_append,
        List.length_take, List.length_drop, List.length_cons, List.length_nil, kept, bodyAt]
      omega

end BlockLines

namespace FencedBlock

private theorem mem_takeWhile_of_mem_drop {α : Type} {p : α → Bool} {n : Nat} {xs : List α} {x : α}
    (member : x ∈ (xs.takeWhile p).drop n) : x ∈ (xs.drop n).takeWhile p := by
  induction n generalizing xs with
  | zero => exact member
  | succ n ih =>
    cases xs with
    | nil => cases member
    | cons y xs =>
      by_cases taken : p y
      · rw [List.takeWhile_cons_of_pos taken] at member
        exact ih member
      · rw [List.takeWhile_cons_of_neg taken] at member
        cases member

/-- What is located is behind an opening line. -/
theorem onOpeningLine_of_locate? {text : Text} {range : Span} {block : FencedBlock}
    (found : locate? text range = some block) : BlockLines.OnOpeningLine text range.start := by
  by_contra unmarked
  let start := lineStart text range.start
  let openingLine := (text.drop start).takeWhile (· ≠ '\n')
  have onLine : start ≤ range.start := Nat.sub_le _ _
  have plain : ∀ c ∈ openingLine.drop (range.start - start), isMarker c = false := by
    intro c member
    have inRest := mem_takeWhile_of_mem_drop member
    rw [List.drop_drop, Nat.add_sub_cancel' onLine] at inRest
    by_contra marker
    exact unmarked (List.any_eq_true.mpr ⟨c, inRest, by simpa using marker⟩)
  have none : openingLine.drop (range.start - start +
      countWhile (!isMarker ·) (openingLine.drop (range.start - start))) = [] := by
    rw [← List.drop_drop, drop_countWhile]
    exact List.dropWhile_eq_nil_iff.mpr fun c member => by simp [plain c member]
  unfold locate? at found
  simp only [start, openingLine] at none
  simp only [none] at found
  cases found

end FencedBlock

namespace BlockLines

/-- Every located block is that of the lines around its range. -/
theorem exists_of_locate? {text : Text} {range : Span} {block : FencedBlock}
    (located : locate? text range = some block) :
    ∃ before lines after, text = before ++ lines.text ++ after ∧
      Placed lines before after range ∧ lines.block before = block := by
  obtain ⟨before, lines, after, rfl, placed⟩ := exists_placed (onOpeningLine_of_locate? located)
  exact ⟨before, lines, after, rfl, placed,
    Option.some.inj (placed.locate?_eq.symm.trans located)⟩

/-- Only where no marker follows on the line, nothing is located. -/
theorem locate?_eq_none_iff {text : Text} {range : Span} :
    locate? text range = none ↔ ¬ OnOpeningLine text range.start := by
  constructor
  · intro none opening
    obtain ⟨before, lines, after, rfl, placed⟩ := exists_placed opening
    rw [placed.locate?_eq] at none
    cases none
  · intro plain
    cases found : locate? text range with
    | none => rfl
    | some block => exact absurd (onOpeningLine_of_locate? found) plain

end BlockLines
end Transclusion
