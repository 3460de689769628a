import Transclusion.CommonMark.Structure
import Transclusion.Proofs.Answers
import Transclusion.Proofs.Failures

/-! A rewrite touches nothing but the blocks it fills. The document and its rewrite are the
same kept pieces with other texts between them, and what stands between them in the
document are the bodies of the filled blocks and the fence runs that had to grow. -/
namespace Transclusion.Document

/-- A document is made into another by replacing parts of filled blocks. -/
structure Replaces (blocks : List FencedBlock) (contents : List (Option Text)) (text out : Text)
    (replaced : List Edit) : Prop where
  /-- No two replaced parts overlap. -/
  apart : replaced.Pairwise fun a b => a.span.stop ≤ b.span.start
  inside : ∀ edit ∈ replaced, edit.span.start ≤ edit.span.stop ∧ edit.span.stop ≤ text.length
  /-- The pieces alternate with the replaced parts. -/
  pieces : (Edit.kept 0 replaced text).length = replaced.length + 1
  whole : text = Text.interleave (Edit.kept 0 replaced text)
    (replaced.map fun edit => edit.span.slice text)
  result : out = Text.interleave (Edit.kept 0 replaced text) (replaced.map Edit.text)
  /-- A replaced part is the body of a filled block, or a run of markers of one whose fence
  grows, which gives way to the longer run. -/
  owned : ∀ edit ∈ replaced, ∃ block content, (block, some content) ∈ blocks.zip contents ∧
    (edit.span = block.body ∨ (edit.span = block.opening ∨ block.closing = some edit.span) ∧
      block.fence.length < (block.fence.widenFor (FencedBlock.contentLines content)).length ∧
      edit.text = List.replicate
        (block.fence.widenFor (FencedBlock.contentLines content)).length block.fence.marker)

/-- The edits of a document that is cut into sections are such replacements. -/
theorem replaces_of_laid {parts : List Section} {tail : Text} {ranges : List Span}
    (laid : Layout.Laid [] parts tail ranges) :
    Replaces (Layout.blocks [] parts) (parts.map Section.content) (Layout.text parts tail)
      (Edit.applyAll (ofFilled FencedBlock.edits (Layout.blocks [] parts)
        (parts.map Section.content)) (Layout.text parts tail))
      (ofFilled FencedBlock.replacements (Layout.blocks [] parts)
        (parts.map Section.content)) := by
  rw [laid.applyAll_eq, ← laid.splice_eq, ← Layout.replacements_eq]
  have spans := laid.replacements_spans
  have ordered := laid.replacements_inOrder
  refine ⟨ordered.apart.imp And.left, fun edit member =>
    ⟨(spans edit member).2.1, (spans edit member).2.2.2⟩, Edit.length_kept _ _ _, ?_,
    Edit.splice_eq_interleave _ _ _, ?_⟩
  · exact Edit.eq_interleave_slices ordered fun _ _ => Nat.zero_le _
  · intro edit member
    rw [Layout.replacements_eq] at member
    obtain ⟨⟨block, content⟩, isFilled, own⟩ := List.mem_flatMap.mp member
    cases content with
    | none => cases own
    | some content => exact ⟨block, content, isFilled, FencedBlock.mem_replacements own⟩

theorem ofFilled_none (make : FencedBlock → Text → List Edit) {blocks : List FencedBlock}
    {contents : List (Option Text)}
    (unfilled : ∀ block content, (block, content) ∈ blocks.zip contents → content = none) :
    ofFilled make blocks contents = [] := by
  refine List.flatMap_eq_nil_iff.mpr ?_
  intro (block, content) member
  rw [unfilled block content member]
  rfl

/-- Rewriting is lossless outside the blocks that carry a directive, whatever the source
answers: the replacements of those blocks make the rewrite of the document, none reaches
into a block without a directive, and without any directive nothing changes. -/
theorem rewriteAt_lossless {σ : Type} (source : Source (StateM σ)) (options : Options)
    (ranges : List Span) (text out : Text) (state : σ) (ordered : RangesInOrder text ranges)
    (rewritten : (rewriteAt source options ranges text state).1 = .ok out) :
    let blocks := blocksAt ranges text
    blocks.length = ranges.length ∧
      ∃ contents : List (Option Text),
        List.Forall₂ (fun block content =>
          content.isSome = (directiveToken? options block).isSome) blocks contents ∧
        Replaces blocks contents text out (ofFilled FencedBlock.replacements blocks contents) ∧
        (∀ block ∈ blocks, directiveToken? options block = none →
          ∀ edit ∈ ofFilled FencedBlock.replacements blocks contents,
            edit.span.stop ≤ block.extent.start ∨ block.extent.stop ≤ edit.span.start) ∧
        ((∀ block ∈ blocks, directiveToken? options block = none) → out = text) := by
  dsimp only
  obtain ⟨contents, answered, rfl⟩ : ∃ contents,
      List.Forall₂ (Answered options fun _ _ => True) (blocksAt ranges text) contents ∧ _ :=
    exists_filled (fun _ _ _ _ => trivial) rewritten
  have filled : List.Forall₂ (fun block content =>
      content.isSome = (directiveToken? options block).isSome) (blocksAt ranges text) contents :=
    answered.imp fun _ _ own => own.isSome
  obtain ⟨parts, tail, rfl, laid, rfl, found⟩ :=
    Layout.exists_sections ordered answered.length_eq
  rw [found] at filled ⊢
  refine ⟨laid.length_blocks, parts.map Section.content, filled, replaces_of_laid laid, ?_, ?_⟩
  · rw [← Layout.replacements_eq]
    intro block member without
    exact laid.untouched filled block member (by simp [without])
  · intro without
    rw [ofFilled_none]
    · simp [Edit.applyAll]
    · intro block content member
      have own := List.forall₂_zip filled member
      rw [without block (List.of_mem_zip member).1] at own
      exact Option.isNone_iff_eq_none.mp (by simpa using own)

/-- A block in a quote that nothing closes has no body and ends where the next block opens; the
last block has no directive. -/
def touching : Text := "> ```a url=x\n```b url=y\nold\n```\nc\n~~~\nkept\n~~~\n".toList

/-- A source that counts its requests. From the second on its answer could close a block. -/
def counting : Source (StateM Nat) := fun _ asked =>
  (.ok (if asked = 0 then "x" else "```\n").toList, asked + 1)

/-- The body of the first block is inserted in front of the opening fence of the second one,
which grows. -/
theorem rewriteAt_lossless_touching :
    let ranges : List Span := [⟨2, 13⟩, ⟨13, 31⟩, ⟨34, 46⟩]
    let blocks := blocksAt ranges touching
    let replaced : List Edit := [⟨⟨13, 13⟩, "> x\n> ```\n".toList⟩, ⟨⟨13, 16⟩, "````".toList⟩,
      ⟨⟨24, 28⟩, "```\n".toList⟩, ⟨⟨28, 31⟩, "````".toList⟩]
    let out := "> ```a url=x\n> x\n> ```\n````b url=y\n```\n````\nc\n~~~\nkept\n~~~\n".toList
    CommonMark.fencedRanges touching = ranges ∧ RangesInOrder touching ranges ∧
      (rewriteAt counting .standard ranges touching 0).1 = .ok out ∧
      ofFilled FencedBlock.replacements blocks
        [some "x".toList, some "```".toList, none] = replaced ∧
      ∃ contents, List.Forall₂ (fun block content =>
          content.isSome = (directiveToken? .standard block).isSome) blocks contents ∧
        Replaces blocks contents touching out
          (ofFilled FencedBlock.replacements blocks contents) := by
  intro ranges blocks replaced out
  have ordered : RangesInOrder touching ranges := by decide +kernel
  have rewritten : (rewriteAt counting .standard ranges touching 0).1 = .ok out := by
    let edits : List Edit := [⟨⟨13, 13⟩, "> x\n> ```\n".toList⟩, ⟨⟨24, 28⟩, "```\n".toList⟩,
      ⟨⟨13, 16⟩, "````".toList⟩, ⟨⟨28, 31⟩, "````".toList⟩]
    have proper : WellFormed .standard blocks := by decide +kernel
    have made : fillAll .standard (fetchAll counting (carrying .standard blocks) 0).1 =
        .ok edits := by decide +kernel
    have inOrder : Edit.InOrder replaced := by decide
    have applied : Edit.applyAll edits touching = out :=
      (Edit.applyAll_eq_splice inOrder (by decide +kernel) (by decide)).trans (by decide +kernel)
    rw [rewriteAt_of_ok (pending_of_wellFormed proper), made, Except.map, applied]
  obtain ⟨-, contents, filled, replaces, -⟩ :=
    rewriteAt_lossless counting .standard ranges touching out 0 ordered rewritten
  exact ⟨by decide +kernel, ordered, rewritten, by decide +kernel, contents, filled, replaces⟩

end Transclusion.Document
