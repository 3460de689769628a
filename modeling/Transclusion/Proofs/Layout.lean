import Mathlib.Data.List.Perm.Basic
import Transclusion.Document
import Transclusion.Proofs.Refilling

/-! A document as its blocks with text between them. The ranges of a scanner that come in
order cut a document into such sections, and every later fact about a whole document is an
induction over them: what stands before a section is all that its blocks, its edits and
its place after the edits depend on. -/
namespace Transclusion
open Text FencedBlock

/-- What the ranges of a scanner are taken to be: each starts on its opening line, and the
opening line of a later block is a later line, at or behind the end of the one before. -/
structure RangesInOrder (text : Text) (ranges : List Span) : Prop where
  proper : ∀ range ∈ ranges, range.start ≤ range.stop
  opening : ∀ range ∈ ranges, BlockLines.OnOpeningLine text range.start
  apart : ranges.Pairwise fun a b =>
    lineStart text a.start < lineStart text b.start ∧ a.stop ≤ lineStart text b.start

instance (text : Text) (ranges : List Span) : Decidable (RangesInOrder text ranges) :=
  decidable_of_iff ((∀ range ∈ ranges, range.start ≤ range.stop) ∧
      (∀ range ∈ ranges, BlockLines.OnOpeningLine text range.start) ∧
      ranges.Pairwise fun a b =>
        lineStart text a.start < lineStart text b.start ∧ a.stop ≤ lineStart text b.start)
    ⟨fun ⟨proper, opening, apart⟩ => ⟨proper, opening, apart⟩,
      fun ordered => ⟨ordered.proper, ordered.opening, ordered.apart⟩⟩

/-- What is made of the blocks that are filled, in their order. -/
def Document.ofFilled (make : FencedBlock → Text → List Edit) (blocks : List FencedBlock)
    (contents : List (Option Text)) : List Edit :=
  (blocks.zip contents).flatMap fun (block, content) => content.elim [] (make block)

/-- A block of a document with the text between it and the block before it, and what it is
filled with, if it is. -/
structure Section where
  gap : Text
  lines : BlockLines
  content : Option Text

namespace Section

/-- The section once it is filled, without what follows its own closing fence. -/
def refill (part : Section) : BlockLines :=
  match part.content with
  | none => part.lines
  | some content => part.lines.refill content

/-- What follows the closing fence that filling wrote. -/
def newlineBehind (part : Section) : Text :=
  match part.content with
  | none => []
  | some _ => part.lines.newlineBehind

/-- The parts of the document that filling the section replaces. -/
def replacements (part : Section) (before : Text) : List Edit :=
  match part.content with
  | none => []
  | some content => (part.lines.block before).replacements content

theorem replacements_spans {part : Section} (valid : part.lines.Valid) (before : Text) :
    ∀ edit ∈ part.replacements before,
      (part.lines.block before).opening.start ≤ edit.span.start ∧
        edit.span.start ≤ edit.span.stop ∧
        (part.lines.block before).opening.start < edit.span.stop ∧
        edit.span.stop ≤ (before ++ part.lines.text).length := by
  unfold replacements
  split
  · simp
  · exact BlockLines.replacements_spans valid before _

theorem replacements_inOrder {part : Section} (valid : part.lines.Valid) (before : Text) :
    Edit.InOrder (part.replacements before) := by
  unfold replacements
  split
  · exact ⟨by simp, List.Pairwise.nil⟩
  · exact BlockLines.replacements_inOrder valid before _

/-- Making the replacements of a section leaves the filled one. -/
theorem splice_replacements {part : Section} {more : List Edit} (valid : part.lines.Valid)
    (before rest : Text)
    (later : ∀ edit ∈ more, (before ++ part.lines.text).length ≤ edit.span.start)
    (proper : ∀ edit ∈ more, edit.span.start ≤ edit.span.stop) :
    Edit.splice before.length (part.replacements before ++ more) (part.lines.text ++ rest) =
      part.refill.text ++ (part.newlineBehind ++
        Edit.splice (before ++ part.lines.text).length more rest) := by
  unfold replacements refill newlineBehind
  split
  · have skip : Edit.splice before.length more (part.lines.text ++ rest) = _ :=
      Edit.splice_skip part.lines.text (by simpa using later) proper
    simpa using skip
  · exact BlockLines.splice_replacements valid before _ rest later proper

end Section

namespace Layout
variable {before tail : Text} {sections : List Section} {ranges : List Span}

/-- The sections one after another, and what follows the last. -/
def text : List Section → Text → Text
  | [], tail => tail
  | part :: parts, tail => part.gap ++ (part.lines.text ++ text parts tail)

/-- The sections once they are filled. -/
def filledText : List Section → Text → Text
  | [], tail => tail
  | part :: parts, tail =>
    part.gap ++ (part.refill.text ++ (part.newlineBehind ++ filledText parts tail))

/-- The blocks of sections that stand behind a text. -/
def blocks (before : Text) : List Section → List FencedBlock
  | [] => []
  | part :: parts =>
    part.lines.block (before ++ part.gap) :: blocks (before ++ part.gap ++ part.lines.text) parts

/-- All that filling replaces, from front to back. -/
def replacements (before : Text) : List Section → List Edit
  | [] => []
  | part :: parts =>
    part.replacements (before ++ part.gap) ++
      replacements (before ++ part.gap ++ part.lines.text) parts

/-- Sections behind a text are where the ranges find blocks. -/
inductive Laid : Text → List Section → Text → List Span → Prop
  | nil (before tail : Text) : Laid before [] tail []
  | cons {before : Text} {part : Section} {parts : List Section} {tail : Text} {range : Span}
      {ranges : List Span} (proper : range.start ≤ range.stop)
      (placed : part.lines.Placed (before ++ part.gap) (text parts tail) range)
      (rest : Laid (before ++ part.gap ++ part.lines.text) parts tail ranges) :
      Laid before (part :: parts) tail (range :: ranges)

/-- The next opening line is behind the whole opening line of a block. -/
private theorem bodyStart_le {lines : BlockLines} {before after next line rest : Text}
    {range : Span} (placed : lines.Placed before after range)
    (split : before ++ lines.text ++ after = next ++ line ++ rest) (startsLine : EndsLine next)
    (later : before.length < next.length) : lines.bodyStart before ≤ next.length := by
  have nextPrefix : next <+: before ++ (lines.text ++ after) :=
    ⟨line ++ rest, by rw [← List.append_assoc, ← List.append_assoc, ← split]⟩
  obtain ⟨middle, rfl⟩ : before <+: next :=
    List.prefix_of_prefix_length_le (List.prefix_append _ _) nextPrefix (Nat.le_of_lt later)
  have nonempty : middle ≠ [] := by
    rintro rfl
    simp at later
  have middlePrefix : middle <+: lines.openingLine ++ (lines.ending ++ (lines.inner ++ after)) := by
    have := (List.prefix_append_right_inj before).mp nextPrefix
    simpa [BlockLines.text] using this
  have beyond : lines.openingLine.length < middle.length := by
    by_cases inside : middle.length ≤ lines.openingLine.length
    · obtain ⟨others, same⟩ :=
        List.prefix_of_prefix_length_le middlePrefix (List.prefix_append _ _) inside
      have newline : '\n' ∈ middle := by
        rcases startsLine.of_append nonempty with none | last
        · exact absurd none nonempty
        · exact List.mem_of_getLast? last
      refine absurd ?_ placed.valid.openingLine_free
      rw [← same]
      exact List.mem_append_left _ newline
    · omega
  have bound := middlePrefix.length_le
  simp only [List.length_append] at bound ⊢
  unfold BlockLines.bodyStart
  cases ended : lines.newline with
  | true => simp [BlockLines.ending, ended]; omega
  | false =>
    simp only [BlockLines.ending, ended, placed.valid.unended ended, placed.last ended] at bound
    simp at bound
    omega

/-- Ranges in order cut what follows a text into sections. -/
theorem exists_laid (before : Text) (contents : List (Option Text)) {rest : Text}
    (ordered : RangesInOrder (before ++ rest) ranges)
    (behind : ∀ range ∈ ranges, before.length ≤ lineStart (before ++ rest) range.start)
    (same : contents.length = ranges.length) :
    ∃ parts tail, rest = text parts tail ∧ Laid before parts tail ranges ∧
      parts.map Section.content = contents := by
  induction ranges generalizing before rest contents with
  | nil =>
    obtain rfl := List.eq_nil_of_length_eq_zero same
    exact ⟨[], rest, rfl, .nil _ _, rfl⟩
  | cons range ranges ih =>
    obtain ⟨content, more, rfl⟩ : ∃ content more, contents = content :: more := by
      cases contents with
      | nil => cases same
      | cons content more => exact ⟨content, more, rfl⟩
    obtain ⟨front, lines, after, split, placed⟩ :=
      BlockLines.exists_placed (ordered.opening range (by simp))
    have frontLength : before.length ≤ front.length := by
      have inFront := behind range (by simp)
      rwa [split, placed.lineStart_eq] at inFront
    obtain ⟨gap, rfl⟩ : before <+: front :=
      List.prefix_of_prefix_length_le (List.prefix_append _ _)
        (by rw [split, List.append_assoc]; exact List.prefix_append _ _) frontLength
    have restSplit : rest = gap ++ (lines.text ++ after) := by
      simpa only [List.append_assoc, List.append_cancel_left_eq] using split
    have reached := placed.reaches
    have tailOrdered : RangesInOrder (before ++ gap ++ lines.text ++ after) ranges := by
      rw [split] at ordered
      exact ⟨fun other member => ordered.proper other (by simp [member]),
        fun other member => ordered.opening other (by simp [member]), ordered.apart.of_cons⟩
    have tailBehind : ∀ other ∈ ranges, (before ++ gap ++ lines.text).length ≤
        lineStart (before ++ gap ++ lines.text ++ after) other.start := by
      intro other member
      obtain ⟨later, stops⟩ := (List.pairwise_cons.mp ordered.apart).1 other member
      rw [split, placed.lineStart_eq] at later
      rw [split] at stops
      obtain ⟨next, nextLines, nextAfter, nextSplit, nextPlaced⟩ :=
        BlockLines.exists_placed (tailOrdered.opening other member)
      rw [nextSplit, nextPlaced.lineStart_eq] at later stops ⊢
      have opened := bodyStart_le placed nextSplit nextPlaced.startsLine later
      rw [← reached]
      exact Nat.le_trans (Nat.min_le_left _ _) (Nat.max_le.mpr ⟨stops, opened⟩)
    obtain ⟨parts, tail, rfl, laid, filled⟩ :=
      ih _ more tailOrdered tailBehind (Nat.succ.inj same)
    exact ⟨⟨gap, lines, content⟩ :: parts, tail, restSplit,
      .cons (ordered.proper range (by simp)) placed laid, by rw [List.map_cons, filled]⟩

/-- The ranges find the blocks of the sections. -/
theorem Laid.blocksAt_eq (laid : Laid before sections tail ranges) :
    Document.blocksAt ranges (before ++ text sections tail) = blocks before sections := by
  unfold Document.blocksAt
  induction laid with
  | nil => rfl
  | cons proper placed rest ih =>
    have located := placed.locate?_eq
    simp only [List.append_assoc] at located ih
    simp only [text, blocks, List.append_assoc, List.filterMap_cons, located, ih]

/-- Every replacement is made behind what stands in front of the sections and in front of
their end. -/
theorem Laid.replacements_spans (laid : Laid before sections tail ranges) :
    ∀ edit ∈ replacements before sections, before.length ≤ edit.span.start ∧
      edit.span.start ≤ edit.span.stop ∧ before.length < edit.span.stop ∧
        edit.span.stop ≤ (before ++ text sections tail).length := by
  induction laid with
  | nil => simp [replacements]
  | @cons before part parts tail range ranges proper placed rest ih =>
    intro edit member
    have starts : (before ++ part.gap).length ≤
        (part.lines.block (before ++ part.gap)).opening.start := Nat.le_add_right _ _
    simp only [text, List.length_append] at starts ih ⊢
    rcases List.mem_append.mp member with own | later
    · have spans := Section.replacements_spans placed.valid _ edit own
      simp only [List.length_append] at spans
      omega
    · have spans := ih edit later
      omega

theorem Laid.replacements_inOrder (laid : Laid before sections tail ranges) :
    Edit.InOrder (replacements before sections) := by
  refine ⟨fun edit member => (laid.replacements_spans edit member).2.1, ?_⟩
  induction laid with
  | nil => exact List.Pairwise.nil
  | cons proper placed rest ih =>
    refine List.pairwise_append.mpr
      ⟨(Section.replacements_inOrder placed.valid _).apart, ih, ?_⟩
    intro edit own other later
    have ownSpans := Section.replacements_spans placed.valid _ edit own
    have laterSpans := rest.replacements_spans other later
    refine ⟨by omega, ?_⟩
    intro same
    have stops := congrArg Span.stop same
    omega

theorem opening_start_le (before : Text) (parts : List Section) :
    ∀ block ∈ blocks before parts, before.length ≤ block.opening.start := by
  induction parts generalizing before with
  | nil => simp [blocks]
  | cons part parts ih =>
    intro block member
    rcases List.mem_cons.mp member with rfl | later
    · have starts : (before ++ part.gap).length ≤
          (part.lines.block (before ++ part.gap)).opening.start := Nat.le_add_right _ _
      rw [List.length_append] at starts
      omega
    · have starts := ih _ block later
      simp only [List.length_append] at starts
      omega

/-- No replacement reaches into a block that is not filled. -/
theorem Laid.untouched {carries : FencedBlock → Bool} (laid : Laid before sections tail ranges)
    (filled : List.Forall₂ (fun block content => content.isSome = carries block)
      (blocks before sections) (sections.map Section.content)) :
    ∀ block ∈ blocks before sections, carries block = false →
      ∀ edit ∈ replacements before sections,
        edit.span.stop ≤ block.extent.start ∨ block.extent.stop ≤ edit.span.start := by
  induction laid with
  | nil => simp [blocks]
  | @cons before part parts tail range ranges proper placed rest ih =>
    obtain ⟨own, others⟩ := List.forall₂_cons.mp filled
    intro block member without edit isEdit
    rcases List.mem_append.mp isEdit with isOwn | isLater
    · rcases List.mem_cons.mp member with rfl | later
      · have none : part.content = none := by
          rw [without] at own
          exact Option.isNone_iff_eq_none.mp (by simpa using own)
        simp [Section.replacements, none] at isOwn
      · refine Or.inl (Nat.le_trans ?_ (opening_start_le _ _ block later))
        exact (Section.replacements_spans placed.valid _ edit isOwn).2.2.2
    · rcases List.mem_cons.mp member with rfl | later
      · refine Or.inr (Nat.le_trans ?_ (rest.replacements_spans edit isLater).1)
        exact BlockLines.extent_stop_le placed.valid _
      · exact ih others block later without edit isLater

/-- Making all replacements leaves the filled sections. -/
theorem Laid.splice_eq (laid : Laid before sections tail ranges) :
    Edit.splice before.length (replacements before sections) (text sections tail) =
      filledText sections tail := by
  induction laid with
  | nil => rfl
  | @cons before part parts tail range ranges proper placed rest ih =>
    have whole := (Laid.cons proper placed rest).replacements_spans
    have starts : (before ++ part.gap).length ≤
        (part.lines.block (before ++ part.gap)).opening.start := Nat.le_add_right _ _
    have behindGap : ∀ edit ∈ replacements before (part :: parts),
        before.length + part.gap.length ≤ edit.span.start := by
      intro edit member
      rw [← List.length_append]
      rcases List.mem_append.mp member with own | later
      · exact Nat.le_trans starts (Section.replacements_spans placed.valid _ edit own).1
      · have spans := (rest.replacements_spans edit later).1
        rw [List.length_append] at spans
        omega
    have skip :
        Edit.splice before.length _ (part.gap ++ (part.lines.text ++ text parts tail)) = _ :=
      Edit.splice_skip part.gap behindGap (fun edit member => (whole edit member).2.1)
    rw [text, filledText, skip, ← List.length_append, replacements,
      Section.splice_replacements placed.valid _ _
        (fun edit member => (rest.replacements_spans edit member).1)
        (fun edit member => (rest.replacements_spans edit member).2.1), ih]

/-- The replacements of the sections are those of their blocks. -/
theorem replacements_eq (before : Text) (parts : List Section) :
    replacements before parts = Document.ofFilled FencedBlock.replacements (blocks before parts)
      (parts.map Section.content) := by
  unfold Document.ofFilled
  induction parts generalizing before with
  | nil => rfl
  | cons part parts ih =>
    simp only [replacements, blocks, List.map_cons, List.zip_cons_cons, List.flatMap_cons, ih,
      List.append_cancel_right_eq]
    unfold Section.replacements
    split <;> simp [*]

end Layout

/-- Making the edits of filled blocks makes their replacements. -/
theorem Document.replacements_perm_edits (blocks : List FencedBlock)
    (contents : List (Option Text)) :
    (ofFilled FencedBlock.replacements blocks contents).Perm
      (ofFilled FencedBlock.edits blocks contents) := by
  refine List.Perm.flatMap_left _ ?_
  intro (block, content) _
  cases content with
  | none => exact List.Perm.refl _
  | some content => exact block.replacements_perm content

namespace Layout
variable {tail : Text} {sections : List Section} {ranges : List Span}

theorem Laid.length_blocks {before : Text} (laid : Laid before sections tail ranges) :
    (blocks before sections).length = ranges.length := by
  induction laid with
  | nil => rfl
  | cons proper placed rest ih => exact congrArg Nat.succ ih

/-- Every range that comes in order finds a block. -/
theorem length_blocksAt {text : Text} (ordered : RangesInOrder text ranges) :
    (Document.blocksAt ranges text).length = ranges.length := by
  obtain ⟨parts, tail, rfl, laid, -⟩ := exists_laid [] (List.replicate ranges.length none) ordered
    (fun _ _ => Nat.zero_le _) List.length_replicate
  exact (congrArg List.length laid.blocksAt_eq).trans laid.length_blocks

/-- A document with what its blocks are filled with, cut into sections. -/
theorem exists_sections {text : Text} {contents : List (Option Text)}
    (ordered : RangesInOrder text ranges)
    (same : (Document.blocksAt ranges text).length = contents.length) :
    ∃ parts tail, text = Layout.text parts tail ∧ Laid [] parts tail ranges ∧
      parts.map Section.content = contents ∧ Document.blocksAt ranges text = blocks [] parts := by
  rw [length_blocksAt ordered] at same
  obtain ⟨parts, tail, rfl, laid, filled⟩ := exists_laid [] contents ordered
    (fun _ _ => Nat.zero_le _) same.symm
  exact ⟨parts, tail, rfl, laid, filled, laid.blocksAt_eq⟩

/-- The edits of all blocks leave the filled sections. -/
theorem Laid.applyAll_eq (laid : Laid [] sections tail ranges) :
    Edit.applyAll (Document.ofFilled FencedBlock.edits (blocks [] sections)
      (sections.map Section.content)) (text sections tail) = filledText sections tail := by
  have listed := Document.replacements_perm_edits (blocks [] sections)
    (sections.map Section.content)
  rw [← replacements_eq] at listed
  have inside := laid.replacements_spans
  exact (Edit.applyAll_eq_splice laid.replacements_inOrder
    (fun edit member => (inside edit member).2.2.2) listed.symm).trans laid.splice_eq

end Layout
end Transclusion
