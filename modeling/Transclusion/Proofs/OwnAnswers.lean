import Mathlib.Data.List.Forall2
import Transclusion.Proofs.EditsInAnyOrder
import Transclusion.Proofs.Failures
import Transclusion.Proofs.Layout
import Transclusion.Proofs.SelectedLines

/-! What the answers to its blocks make of a document. Each block with a directive gets the
lines that its directive selects from the text its own request was answered with. What is
written for it is said here by those lines and the document, and never by the answer to
another block. -/
namespace Transclusion.Document
variable {options : Options} {ranges : List Span} {text : Text}
  {sources : List (PendingBlock × Text)}

/-- Edits fill a block from its source: they write the lines its directive selects there. -/
def Fills (options : Options) (text : Text) : PendingBlock × Text → List Edit → Prop
  | (pending, source), edits =>
    ∃ written, Snippet.WrittenAs options.unindent
        (pending.directive.range.select source options.keepFinalNewline).lines written ∧
      edits.Perm (pending.block.editsOf text written)

/-- A text is the document with each block filled from its own source. -/
structure FilledFrom (options : Options) (ranges : List Span) (text : Text)
    (sources : List (PendingBlock × Text)) (out : Text) : Prop where
  /-- The edits that fill the blocks are made, and no others. -/
  edited : ∃ edits, List.Forall₂ (Fills options text) sources edits ∧
    out = Edit.applyAll edits.flatten text
  /-- If the blocks come in order, the untouched parts of the document take turns with what
  the edits write, each at its place in the document. -/
  placed : RangesInOrder text ranges → ∃ edits, List.Forall₂ (Fills options text) sources edits ∧
    Edit.InOrder edits.flatten ∧ out = Edit.patched text 0 edits.flatten

/-- What the answers to the blocks of a document, given in document order, make of it: its
text with every block filled from its own answer, or the failure of the first block whose
answer is one. -/
inductive Concludes (options : Options) (ranges : List Span) (text : Text) :
    List (PendingBlock × Except FetchError Text) → Except RewriteError Text → Prop where
  | filled {sources : List (PendingBlock × Text)} {out : Text}
      (own : FilledFrom options ranges text sources out) :
      Concludes options ranges text
        (sources.map fun (pending, source) => (pending, .ok source)) (.ok out)
  | failed {before after : List (PendingBlock × Except FetchError Text)} {pending : PendingBlock}
      {cause : FetchError} (succeeded : ∀ earlier ∈ before, ∃ source, earlier.2 = .ok source) :
      Concludes options ranges text (before ++ (pending, .error cause) :: after)
        (.error (.fetch pending.block.line cause))

theorem located_of_carrying {pending : PendingBlock}
    (member : pending ∈ carrying options (blocksAt ranges text)) :
    ∃ range, FencedBlock.locate? text range = some pending.block := by
  obtain ⟨block, isBlock, read⟩ := List.mem_filterMap.mp member
  obtain ⟨range, -, located⟩ := List.mem_filterMap.mp isBlock
  split at read
  · cases read
    exact ⟨range, located⟩
  · cases read

/-- The edits a block makes of the snippet of its source fill it from that source, in
whatever order they are listed. -/
theorem fills_of_located {pending : PendingBlock} {range : Span} {edits : List Edit}
    (located : FencedBlock.locate? text range = some pending.block) (source : Text)
    (listed : edits.Perm (pending.block.edits (pending.snippet options source))) :
    Fills options text (pending, source) edits := by
  refine ⟨FencedBlock.contentLines (pending.snippet options source),
    Snippet.writtenAs_extract source _ _ _, ?_⟩
  rwa [← FencedBlock.edits_eq_editsOf located]

/-- Every block is filled from its own source by edits that are made of its snippet. -/
theorem forall₂_fills {make : FencedBlock → Text → List Edit}
    (waiting : sources.map Prod.fst = carrying options (blocksAt ranges text))
    (listed : ∀ block content, (make block content).Perm (block.edits content)) :
    List.Forall₂ (Fills options text) sources (sources.map fun (pending, source) =>
      make pending.block (pending.snippet options source)) := by
  rw [List.forall₂_map_right_iff, List.forall₂_same]
  rintro ⟨pending, source⟩ member
  have isWaiting : pending ∈ sources.map Prod.fst := List.mem_map_of_mem member
  rw [waiting] at isWaiting
  obtain ⟨range, located⟩ := located_of_carrying isWaiting
  exact fills_of_located located source (listed _ _)

/-- Sources of the blocks that wait are contents of all blocks, of which the others have none. -/
theorem exists_contents_of_sources {blocks : List FencedBlock}
    (waiting : sources.map Prod.fst = carrying options blocks) :
    ∃ contents : List (Option Text), contents.length = blocks.length ∧
      ∀ make, ofFilled make blocks contents = sources.flatMap fun (pending, source) =>
        make pending.block (pending.snippet options source) := by
  induction blocks generalizing sources with
  | nil =>
    obtain rfl := List.map_eq_nil_iff.mp waiting
    exact ⟨[], rfl, fun _ => rfl⟩
  | cons block blocks ih =>
    by_cases carries : ∃ directive, reading? options block = some (.ok directive)
    · obtain ⟨directive, read⟩ := carries
      rw [carrying_cons_of_ok read] at waiting
      obtain ⟨⟨own, source⟩, others, rfl, rfl, rest⟩ := List.map_eq_cons_iff.mp waiting
      obtain ⟨contents, same, made⟩ := ih rest
      refine ⟨some (PendingBlock.snippet ⟨block, directive⟩ options source) :: contents,
        congrArg Nat.succ same, fun make => ?_⟩
      rw [List.flatMap_cons, ← made make]
      rfl
    · rw [carrying_cons_of_not carries] at waiting
      obtain ⟨contents, same, made⟩ := ih waiting
      exact ⟨none :: contents, congrArg Nat.succ same, made⟩

/-- The edits of all blocks, each made from its own source, leave the document filled. -/
theorem filledFrom_applyAll
    (waiting : sources.map Prod.fst = carrying options (blocksAt ranges text)) :
    FilledFrom options ranges text sources (Edit.applyAll
      (sources.flatMap fun (pending, source) => pending.edits options source) text) := by
  constructor
  · exact ⟨_, forall₂_fills waiting fun _ _ => List.Perm.refl _, rfl⟩
  · intro ordered
    refine ⟨_, forall₂_fills waiting FencedBlock.replacements_perm, ?_⟩
    obtain ⟨contents, same, made⟩ := exists_contents_of_sources waiting
    obtain ⟨parts, tail, rfl, laid, rfl, found⟩ := Layout.exists_sections ordered same.symm
    rw [found] at made
    have edits := made FencedBlock.edits
    have replacements := made FencedBlock.replacements
    rw [← Layout.replacements_eq] at replacements
    have inOrder := laid.replacements_inOrder
    rw [← List.flatMap_def, ← replacements]
    refine ⟨inOrder, ?_⟩
    calc Edit.applyAll (sources.flatMap fun (pending, source) => pending.edits options source) _
        = Layout.filledText parts tail := by rw [← laid.applyAll_eq, edits]; rfl
      _ = Edit.splice 0 (Layout.replacements [] parts) (Layout.text parts tail) :=
        laid.splice_eq.symm
      _ = Edit.patched (Layout.text parts tail) 0 (Layout.replacements [] parts) :=
        Edit.splice_eq_patched inOrder fun _ _ => Nat.zero_le _

/-- Filling the blocks from their answers is what the answers make of the document. -/
theorem concludes_fillAll {answers : List (PendingBlock × Except FetchError Text)}
    (waiting : answers.map Prod.fst = carrying options (blocksAt ranges text)) :
    Concludes options ranges text answers
      ((fillAll options answers).map fun edits => Edit.applyAll edits text) := by
  rcases sources_or_failed answers with ⟨sources, rfl⟩ |
    ⟨before, pending, cause, after, rfl, succeeded⟩
  · rw [List.map_map] at waiting
    rw [fillAll_of_sources]
    exact .filled (filledFrom_applyAll waiting)
  · rw [fillAll_of_failed succeeded]
    exact .failed succeeded

end Transclusion.Document
