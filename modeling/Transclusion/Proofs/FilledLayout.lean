import Transclusion.Proofs.Layout

/-! The document once its blocks are filled. Ranges that edits moved find the filled blocks
in it, with the info strings they had, and filling those again with the same contents
replaces nothing. -/
namespace Transclusion
open Text FencedBlock

namespace Section

theorem refill_valid {part : Section} (valid : part.lines.Valid) : part.refill.Valid := by
  unfold refill
  split
  · exact valid
  · exact BlockLines.refill_valid valid _

theorem getLast?_refill {part : Section} (valid : part.lines.Valid)
    (last : part.lines.text.getLast? = some '\n') :
    (part.refill.text ++ part.newlineBehind).getLast? = some '\n' := by
  unfold refill newlineBehind
  split
  · simpa using last
  · exact BlockLines.getLast?_refill valid _ last

/-- How much longer or shorter a section gets. -/
theorem length_refill {part : Section} (valid : part.lines.Valid) (before : Text) :
    (part.refill.text ++ part.newlineBehind).length + Edit.removed (part.replacements before) =
      part.lines.text.length + Edit.added (part.replacements before) := by
  have spans := replacements_spans valid before
  have starts : before.length ≤ (part.lines.block before).opening.start := Nat.le_add_right _ _
  have spliced : Edit.splice before.length (part.replacements before ++ [])
      (part.lines.text ++ []) = _ := splice_replacements valid before [] (by simp) (by simp)
  rw [List.append_nil, List.append_nil] at spliced
  rw [← Edit.length_splice (replacements_inOrder valid before)
    (fun edit member => Nat.le_trans starts (spans edit member).1)
    (fun edit member => by simpa using (spans edit member).2.2.2), spliced]
  simp [Edit.splice]

end Section

namespace Span

/-- Where a range is once edits are made: its ends are moved, and the range of a block that
was filled without being closed ends with the closing fence it was given. -/
def after (range : Span) (edits : List Edit) (filled : Bool) (block : FencedBlock) : Span :=
  ⟨Edit.moved edits range.start,
    if filled && !block.isClosed then
      Edit.moved edits block.body.stop - (if block.endsWithNewline then 1 else 0)
    else Edit.moved edits range.stop⟩

end Span

namespace Layout
variable {before tail : Text} {sections : List Section} {ranges : List Span}

/-- The sections of the filled document. A newline behind a closing fence that filling
wrote stands in front of the next section. -/
def refilled (carry : Text) : List Section → List Section
  | [] => []
  | part :: parts =>
    ⟨carry ++ part.gap, part.refill, part.content⟩ :: refilled part.newlineBehind parts

/-- What follows the sections of the filled document. -/
def refilledTail (carry : Text) : List Section → Text → Text
  | [], tail => carry ++ tail
  | part :: parts, tail => refilledTail part.newlineBehind parts tail

/-- Where the ranges of the sections are once edits are made. -/
def rangesAfter (edits : List Edit) (before : Text) : List Section → List Span → List Span
  | part :: parts, range :: ranges =>
    range.after edits part.content.isSome (part.lines.block (before ++ part.gap)) ::
      rangesAfter edits (before ++ part.gap ++ part.lines.text) parts ranges
  | _, _ => []

theorem rangesAfter_perm {edits more : List Edit} (same : edits.Perm more) (before : Text)
    (parts : List Section) (ranges : List Span) :
    rangesAfter edits before parts ranges = rangesAfter more before parts ranges := by
  induction parts generalizing before ranges with
  | nil => rfl
  | cons part parts ih =>
    cases ranges with
    | nil => rfl
    | cons range ranges =>
      simp only [rangesAfter, Span.after, Edit.moved_perm same, ih]

theorem text_refilled (carry : Text) (parts : List Section) (tail : Text) :
    text (refilled carry parts) (refilledTail carry parts tail) =
      carry ++ filledText parts tail := by
  induction parts generalizing carry with
  | nil => rfl
  | cons part parts ih => simp [text, refilled, refilledTail, filledText, ih]

/-- Where nothing follows a block, nothing follows the filled one. -/
private theorem Laid.filledText_nil (laid : Laid before sections tail ranges)
    (none : text sections tail = []) : sections = [] ∧ filledText sections tail = [] := by
  cases laid with
  | nil => exact ⟨rfl, none⟩
  | cons proper placed rest =>
    simp only [text, List.append_eq_nil_iff] at none
    exact absurd none.2.1 placed.valid.text_ne_nil

/-- The next replacements are behind the end of a range. -/
private theorem stop_lt {part : Section} {parts : List Section} {range : Span}
    (placed : part.lines.Placed (before ++ part.gap) (text parts tail) range)
    (rest : Laid (before ++ part.gap ++ part.lines.text) parts tail ranges) :
    ∀ edit ∈ replacements (before ++ part.gap ++ part.lines.text) parts,
      range.stop < edit.span.stop := by
  intro edit member
  have behind := (rest.replacements_spans edit member).2.2.1
  have follows : text parts tail ≠ [] := by
    intro none
    rw [(rest.filledText_nil none).1] at member
    cases member
  have positive := List.length_pos_iff.mpr follows
  have reaches := placed.reaches
  simp only [List.length_append] at reaches behind
  omega

section Moved
variable {part : Section} {after otherBefore : Text} {range : Span} {earlier later : List Edit}

/-- The edits up to the end of a section stop inside it. -/
private theorem stops_within (valid : part.lines.Valid)
    (stops : ∀ edit ∈ earlier, edit.span.stop ≤ before.length) :
    ∀ edit ∈ earlier ++ part.replacements before,
      edit.span.stop ≤ (before ++ part.lines.text).length := by
  intro edit member
  rw [List.length_append]
  rcases List.mem_append.mp member with isEarlier | isOwn
  · have := stops edit isEarlier
    omega
  · have := (Section.replacements_spans valid before edit isOwn).2.2.2
    rw [List.length_append] at this
    exact this

/-- They make up for what the filled section is longer or shorter. -/
private theorem length_filled (valid : part.lines.Valid)
    (lengths : otherBefore.length + Edit.removed earlier = before.length + Edit.added earlier) :
    (otherBefore ++ part.refill.text ++ part.newlineBehind).length +
        Edit.removed (earlier ++ part.replacements before) =
      (before ++ part.lines.text).length + Edit.added (earlier ++ part.replacements before) := by
  have grown := Section.length_refill valid before
  simp only [List.length_append, Edit.removed_append, Edit.added_append] at grown ⊢
  omega

/-- A position from the end of a section on keeps its distance from there. -/
private theorem moved_behind {position : Nat} (valid : part.lines.Valid)
    (stops : ∀ edit ∈ earlier, edit.span.stop ≤ before.length)
    (beyond : ∀ edit ∈ later, position < edit.span.stop)
    (lengths : otherBefore.length + Edit.removed earlier = before.length + Edit.added earlier)
    (behind : (before ++ part.lines.text).length ≤ position) :
    Edit.moved (earlier ++ part.replacements before ++ later) position =
      (otherBefore ++ part.refill.text ++ part.newlineBehind).length +
        (position - (before ++ part.lines.text).length) := by
  have within := stops_within valid stops
  exact Edit.moved_append (fun edit member => Nat.le_trans (within edit member) behind) beyond
    (length_filled valid lengths) behind

/-- The range of a closed block reaches to the end of its closing fence. -/
private theorem length_le_stop (placed : part.lines.Placed before after range)
    {closing : Nat × Nat} (found : part.lines.closingRun? = some closing) :
    (before ++ part.lines.text).length ≤ range.stop := by
  obtain ⟨place, run⟩ := closing
  obtain ⟨front, rest, -, closed⟩ := BlockLines.exists_closedBy placed.valid found
  have inner := congrArg List.length closed.whole
  have positive := Nat.lt_of_lt_of_le placed.valid.positive closed.enough
  have total := part.lines.length_text
  have reaches := placed.reaches
  simp only [List.length_append, List.length_replicate, BlockLines.bodyStart] at inner reaches ⊢
  omega

private theorem start_after (placed : part.lines.Placed before after range)
    (stops : ∀ edit ∈ earlier, edit.span.stop ≤ before.length)
    (beyond : ∀ edit ∈ later, range.start < edit.span.stop)
    (lengths : otherBefore.length + Edit.removed earlier = before.length + Edit.added earlier) :
    Edit.moved (earlier ++ part.replacements before ++ later) range.start =
      otherBefore.length + (range.start - before.length) := by
  obtain ⟨offset, inLead, rangeStart, -⟩ := placed.starts
  have opening : (part.lines.block before).opening.start =
      before.length + part.lines.lead.length := rfl
  rw [List.append_assoc]
  apply Edit.moved_append
  · intro edit member
    have := stops edit member
    omega
  · intro edit member
    rcases List.mem_append.mp member with isOwn | isLater
    · have := Section.replacements_spans placed.valid before edit isOwn
      omega
    · exact beyond edit isLater
  · exact lengths
  · omega

/-- A block that was filled without being closed ends with its new closing fence, in front of
the newline behind it. -/
private theorem stop_after_unclosed {content : Text} (valid : part.lines.Valid)
    (filled : part.content = some content) (unclosedRun : part.lines.closingRun? = none)
    (stops : ∀ edit ∈ earlier, edit.span.stop ≤ before.length)
    (beyond : ∀ edit ∈ later, (before ++ part.lines.text).length < edit.span.stop)
    (lengths : otherBefore.length + Edit.removed earlier = before.length + Edit.added earlier) :
    (range.after (earlier ++ part.replacements before ++ later) true
      (part.lines.block before)).stop = (otherBefore ++ part.refill.text).length := by
  have unclosed : (part.lines.block before).isClosed = false := by
    simp [FencedBlock.isClosed, BlockLines.block, unclosedRun]
  have stop : (part.lines.block before).body.stop = (before ++ part.lines.text).length := by
    simp [BlockLines.block, unclosedRun, BlockLines.bodyStart, BlockLines.length_text, Nat.add_assoc]
  have newline : part.newlineBehind.length =
      if (part.lines.block before).endsWithNewline then 1 else 0 := by
    simp only [Section.newlineBehind, filled, BlockLines.length_newlineBehind valid before, unclosed,
      Bool.false_eq_true, ↓reduceIte]
  simp only [Span.after, unclosed, stop, ← newline, Bool.not_false, Bool.and_self, ↓reduceIte]
  rw [moved_behind valid stops beyond lengths (Nat.le_refl _)]
  simp only [List.length_append]
  omega

/-- Any other end is moved with what stands behind it. -/
private theorem stop_after_closed {content : Text} {closing : Nat × Nat}
    (placed : part.lines.Placed before after range) (filled : part.content = some content)
    (found : part.lines.closingRun? = some closing)
    (stops : ∀ edit ∈ earlier, edit.span.stop ≤ before.length)
    (beyond : ∀ edit ∈ later, range.stop < edit.span.stop)
    (lengths : otherBefore.length + Edit.removed earlier = before.length + Edit.added earlier) :
    (range.after (earlier ++ part.replacements before ++ later) true
        (part.lines.block before)).stop =
      (otherBefore ++ part.refill.text).length + range.stop -
        (before ++ part.lines.text).length := by
  have isClosed : (part.lines.block before).isClosed = true := by
    simp [FencedBlock.isClosed, BlockLines.block, found]
  have noNewline : part.newlineBehind = [] := by
    simp [Section.newlineBehind, filled, BlockLines.newlineBehind, found]
  have toEnd := length_le_stop placed found
  simp only [Span.after, isClosed, Bool.not_true, Bool.and_false, Bool.false_eq_true, ↓reduceIte]
  rw [moved_behind placed.valid stops beyond lengths toEnd, noNewline, List.append_nil]
  omega

/-- How far edits move the range of a section: those in front of it and its own count. -/
private theorem after_eq (placed : part.lines.Placed before after range)
    (proper : range.start ≤ range.stop) (stops : ∀ edit ∈ earlier, edit.span.stop ≤ before.length)
    (beyond : ∀ edit ∈ later, range.stop < edit.span.stop ∧
      (before ++ part.lines.text).length < edit.span.stop)
    (lengths : otherBefore.length + Edit.removed earlier = before.length + Edit.added earlier) :
    let other := range.after (earlier ++ part.replacements before ++ later) part.content.isSome
      (part.lines.block before)
    other.start = otherBefore.length + (range.start - before.length) ∧
      other.stop =
        if part.content.isSome && part.lines.closingRun?.isNone then
          (otherBefore ++ part.refill.text).length
        else (otherBefore ++ part.refill.text).length + range.stop -
          (before ++ part.lines.text).length := by
  refine ⟨start_after placed stops (fun edit member => ?_) lengths, ?_⟩
  · exact Nat.lt_of_le_of_lt proper (beyond edit member).1
  cases filled : part.content with
  | none =>
    obtain ⟨offset, -, rangeStart, -⟩ := placed.starts
    have none : part.replacements before = [] := by simp [Section.replacements, filled]
    have same : part.refill = part.lines := by simp [Section.refill, filled]
    have moved : Edit.moved (earlier ++ later) range.stop = _ := Edit.moved_append
      (fun edit member => by
        have := stops edit member
        omega)
      (fun edit member => (beyond edit member).1) lengths (by omega)
    simp only [Span.after, none, same, List.append_nil, Option.isSome_none, Bool.false_and,
      Bool.false_eq_true, ↓reduceIte, moved, List.length_append]
    omega
  | some content =>
    cases found : part.lines.closingRun? with
    | none =>
      exact stop_after_unclosed placed.valid filled found stops
        (fun edit member => (beyond edit member).2) lengths
    | some closing =>
      exact stop_after_closed placed filled found stops
        (fun edit member => (beyond edit member).1) lengths

end Moved

section Refilled
variable {part : Section} {after otherBefore otherAfter : Text} {range other : Span}

private theorem lead_refill : part.refill.lead = part.lines.lead := by
  unfold Section.refill
  split <;> rfl

/-- A moved range reaches to the end of the filled lines. -/
private theorem reaches_refill (placed : part.lines.Placed before after range)
    (proper : range.start ≤ range.stop) (last : after = [] → otherAfter = part.newlineBehind)
    (start : other.start = otherBefore.length + (range.start - before.length))
    (stop : other.stop =
      if part.content.isSome && part.lines.closingRun?.isNone then
        (otherBefore ++ part.refill.text).length
      else (otherBefore ++ part.refill.text).length + range.stop -
        (before ++ part.lines.text).length) :
    min (max other.stop (part.refill.bodyStart otherBefore))
        (otherBefore ++ part.refill.text ++ otherAfter).length =
      (otherBefore ++ part.refill.text).length ∧ other.start ≤ other.stop := by
  obtain ⟨offset, inLead, rangeStart, first⟩ := placed.starts
  have reaches := placed.reaches
  have total := part.lines.length_text
  have opening := part.lines.length_openingLine
  have otherTotal := part.refill.length_text
  have otherOpening := part.refill.length_openingLine
  have nothing : after.length = 0 → otherAfter.length = part.newlineBehind.length :=
    fun none => by rw [last (List.eq_nil_of_length_eq_zero none)]
  simp only [BlockLines.bodyStart, List.length_append] at reaches stop ⊢
  cases filled : part.content with
  | none =>
    have same : part.refill = part.lines := by simp [Section.refill, filled]
    have noNewline : part.newlineBehind.length = 0 := by simp [Section.newlineBehind, filled]
    rw [filled, same] at stop
    rw [same]
    simp only [Option.isSome_none, Bool.false_and, Bool.false_eq_true, ↓reduceIte] at stop
    omega
  | some content =>
    rw [filled] at stop
    rw [lead_refill] at otherOpening
    cases found : part.lines.closingRun? with
    | none =>
      simp only [found, Option.isSome_some, Option.isNone_none, Bool.and_self, ↓reduceIte] at stop
      omega
    | some closing =>
      have toEnd := length_le_stop placed found
      have noNewline : part.newlineBehind.length = 0 := by
        simp [Section.newlineBehind, filled, BlockLines.newlineBehind, found]
      rw [List.length_append] at toEnd
      simp only [found, Option.isNone_some, Bool.and_false, Bool.false_eq_true,
        ↓reduceIte] at stop
      omega

/-- A filled section is found where its range is moved to: the start keeps its distance from
the line it is on, and the end its distance from the end of the lines. -/
private theorem placed_refill (placed : part.lines.Placed before after range)
    (proper : range.start ≤ range.stop) (startsLine : EndsLine otherBefore)
    (last : after = [] → otherAfter = part.newlineBehind)
    (start : other.start = otherBefore.length + (range.start - before.length))
    (stop : other.stop =
      if part.content.isSome && part.lines.closingRun?.isNone then
        (otherBefore ++ part.refill.text).length
      else (otherBefore ++ part.refill.text).length + range.stop -
        (before ++ part.lines.text).length) :
    part.refill.Placed otherBefore otherAfter other ∧ other.start ≤ other.stop := by
  obtain ⟨offset, inLead, rangeStart, first⟩ := placed.starts
  obtain ⟨reaches, otherProper⟩ := reaches_refill placed proper last start stop
  refine ⟨⟨part.refill_valid placed.valid, startsLine, ?_, ⟨offset, ?_, by omega, ?_⟩, reaches⟩,
    otherProper⟩
  · intro ended
    unfold Section.refill at ended
    cases filled : part.content with
    | none =>
      rw [filled] at ended
      simp [last (placed.last ended), Section.newlineBehind, filled]
    | some content =>
      rw [filled] at ended
      cases ended
  · rw [lead_refill]
    exact inLead
  · rw [lead_refill]
    exact first

end Refilled

/-- The filled sections are where the moved ranges find blocks. -/
theorem Laid.after {otherBefore carry : Text} {earlier : List Edit}
    (laid : Laid before sections tail ranges)
    (stops : ∀ edit ∈ earlier, edit.span.stop ≤ before.length)
    (lengths : (otherBefore ++ carry).length + Edit.removed earlier =
      before.length + Edit.added earlier)
    (ends : ∀ gap, EndsLine (before ++ gap) → EndsLine (otherBefore ++ (carry ++ gap))) :
    Laid otherBefore (refilled carry sections) (refilledTail carry sections tail)
      (rangesAfter (earlier ++ replacements before sections) before sections ranges) := by
  induction laid generalizing otherBefore carry earlier with
  | nil => exact .nil _ _
  | @cons before part parts tail range ranges proper placed rest ih =>
    let own := part.replacements (before ++ part.gap)
    let later := replacements (before ++ part.gap ++ part.lines.text) parts
    have valid := placed.valid
    have whole : earlier ++ replacements before (part :: parts) = earlier ++ own ++ later := by
      simp only [replacements, own, later, List.append_assoc]
    have inFront : ∀ edit ∈ earlier, edit.span.stop ≤ (before ++ part.gap).length := by
      intro edit member
      have := stops edit member
      rw [List.length_append]
      omega
    have placedLengths : (otherBefore ++ (carry ++ part.gap)).length + Edit.removed earlier =
        (before ++ part.gap).length + Edit.added earlier := by
      simp only [List.length_append] at lengths ⊢
      omega
    obtain ⟨start, stop⟩ := after_eq placed proper inFront
      (fun edit member => ⟨stop_lt placed rest edit member,
        (rest.replacements_spans edit member).2.2.1⟩) placedLengths
    have last : text parts tail = [] →
        text (refilled part.newlineBehind parts) (refilledTail part.newlineBehind parts tail) =
          part.newlineBehind := by
      intro none
      rw [text_refilled, (rest.filledText_nil none).2, List.append_nil]
    obtain ⟨otherPlaced, otherProper⟩ :=
      placed_refill placed proper (ends _ placed.startsLine) last start stop
    rw [rangesAfter, whole]
    refine .cons otherProper otherPlaced
      (ih (stops_within valid inFront) (length_filled valid placedLengths) ?_)
    intro gap startsLine
    rw [List.append_assoc _ part.refill.text, ← List.append_assoc part.refill.text,
      ← List.append_assoc]
    exact startsLine.exchange valid.text_ne_nil (Section.getLast?_refill valid)

/-- The edits of the blocks of a document leave the filled sections, which are where the edits
have moved the ranges. -/
theorem Laid.filled (laid : Laid [] sections tail ranges) :
    let edits := Document.ofFilled FencedBlock.edits (blocks [] sections)
      (sections.map Section.content)
    Edit.applyAll edits (text sections tail) =
        text (refilled [] sections) (refilledTail [] sections tail) ∧
      Laid [] (refilled [] sections) (refilledTail [] sections tail)
        (rangesAfter edits [] sections ranges) := by
  have listed := Document.replacements_perm_edits (blocks [] sections)
    (sections.map Section.content)
  rw [← replacements_eq] at listed
  have after : Laid [] (refilled [] sections) (refilledTail [] sections tail)
      (rangesAfter ([] ++ replacements [] sections) [] sections ranges) :=
    laid.after (by simp) rfl fun _ ends => ends
  rw [List.nil_append, rangesAfter_perm listed] at after
  exact ⟨laid.applyAll_eq.trans (text_refilled [] sections tail).symm, after⟩

/-- The filled blocks keep their info strings. -/
theorem map_info_refilled (otherBefore carry before : Text) (parts : List Section) :
    (blocks otherBefore (refilled carry parts)).map FencedBlock.info =
      (blocks before parts).map FencedBlock.info := by
  induction parts generalizing otherBefore carry before with
  | nil => rfl
  | cons part parts ih =>
    have same : (part.refill.block (otherBefore ++ (carry ++ part.gap))).info =
        (part.lines.block (before ++ part.gap)).info := by
      unfold Section.refill
      split <;> rfl
    simp only [blocks, refilled, List.map_cons, same, List.cons.injEq, true_and]
    exact ih _ _ _

/-- Filling the filled blocks again with the same contents replaces nothing. -/
theorem Laid.edits_refilled (laid : Laid before sections tail ranges) (otherBefore carry : Text) :
    ∀ edit ∈ Document.ofFilled FencedBlock.edits (blocks otherBefore (refilled carry sections))
        (sections.map Section.content),
      edit.span.start ≤ edit.span.stop ∧ edit.text = edit.span.slice
        (otherBefore ++ text (refilled carry sections) (refilledTail carry sections tail)) := by
  induction laid generalizing otherBefore carry with
  | nil => simp [Document.ofFilled, refilled, blocks]
  | @cons before part parts tail range ranges proper placed rest ih =>
    intro edit member
    have split : otherBefore ++ text (refilled carry (part :: parts))
        (refilledTail carry (part :: parts) tail) =
          otherBefore ++ (carry ++ part.gap) ++ part.refill.text ++
            text (refilled part.newlineBehind parts)
              (refilledTail part.newlineBehind parts tail) := by
      simp [text, refilled, refilledTail]
    rw [split]
    simp only [Document.ofFilled, refilled, blocks, List.map_cons, List.zip_cons_cons,
      List.flatMap_cons, List.mem_append] at member
    rcases member with own | later
    · cases filled : part.content with
      | none => simp [filled] at own
      | some content =>
        have isRefill : part.refill = part.lines.refill content := by
          simp [Section.refill, filled]
        rw [filled, isRefill] at own
        rw [isRefill]
        exact BlockLines.edits_refill placed.valid content _ _ edit own
    · exact ih _ _ edit later

end Layout
end Transclusion
