import Transclusion.CommonMark.Structure
import Transclusion.Proofs.FilledLayout

/-! Blocks filled one after another. A fill moves the ranges of the blocks behind it and
leaves those in front of it alone, and in the document it leaves, every block that still waits
is found where its range was moved to. So blocks can be filled in any order, and the outcome is
that of all their edits made at once. -/
namespace Transclusion
open Text FencedBlock

/-- A span where edits have moved it. -/
def Span.moved (span : Span) (edits : List Edit) : Span :=
  ⟨Edit.moved edits span.start, Edit.moved edits span.stop⟩

namespace Document

/-- The edits that fill the blocks at some ranges, all located in the same text. -/
def editsFor (text : Text) (chosen : List (Span × Text)) : List Edit :=
  chosen.flatMap fun (range, content) =>
    (locate? text range).elim [] fun block => block.edits content

/-- Fills blocks one after another. Each is located again, in the text as it is by then, at
its range as the edits made before have moved it. -/
def fillInTurn (text : Text) (made : List (List Edit)) : List (Span × Text) → Option Text
  | [] => some text
  | (range, content) :: rest =>
    (locate? text (made.foldl Span.moved range)).bind fun block =>
      let edits := block.edits content
      fillInTurn (Edit.applyAll edits text) (made ++ [edits]) rest

/-- Ranges that have been moved by the first edits are moved by the others only. -/
theorem fillInTurn_cons (text : Text) (first : List Edit) (made : List (List Edit))
    (order : List (Span × Text)) :
    fillInTurn text (first :: made) order =
      fillInTurn text made (order.map fun (range, content) => (range.moved first, content)) := by
  induction order generalizing text made with
  | nil => rfl
  | cons next rest ih =>
    simp only [fillInTurn, List.map_cons, List.foldl_cons, List.cons_append, ih]

end Document

namespace Layout
variable {before tail : Text} {parts : List Section} {ranges : List Span}
  {contents first later : List (Option Text)}

/-- The sections with other contents to be filled with. -/
def withContents : List Section → List (Option Text) → List Section
  | part :: parts, content :: contents =>
    ⟨part.gap, part.lines, content⟩ :: withContents parts contents
  | _, _ => []

/-- The ranges that have contents, with them. -/
def waiting (ranges : List Span) (contents : List (Option Text)) : List (Span × Text) :=
  (ranges.zip contents).filterMap fun (range, content) => content.map fun text => (range, text)

/-- Contents are parted into those of a first fill and those of a later one. -/
inductive Parted : List (Option Text) → List (Option Text) → List (Option Text) → Prop
  | nil : Parted [] [] []
  | now {contents first later : List (Option Text)} (content : Option Text)
      (rest : Parted contents first later) :
      Parted (content :: contents) (content :: first) (none :: later)
  | after {contents first later : List (Option Text)} (content : Option Text)
      (rest : Parted contents first later) :
      Parted (content :: contents) (none :: first) (content :: later)

theorem Parted.length_eq (parted : Parted contents first later) :
    first.length = contents.length ∧ later.length = contents.length := by
  induction parted with
  | nil => exact ⟨rfl, rfl⟩
  | now content rest ih => simp [ih]
  | after content rest ih => simp [ih]

theorem parted_self (contents : List (Option Text)) :
    Parted contents (contents.map fun _ => none) contents := by
  induction contents with
  | nil => exact .nil
  | cons content contents ih => exact .after content ih

@[simp] theorem waiting_cons_none (range : Span) :
    waiting (range :: ranges) (none :: contents) = waiting ranges contents := rfl

@[simp] theorem waiting_cons_some (range : Span) (content : Text) :
    waiting (range :: ranges) (some content :: contents) =
      (range, content) :: waiting ranges contents := rfl

theorem waiting_none (ranges : List Span) (contents : List (Option Text)) :
    waiting ranges (contents.map fun _ => none) = [] := by
  induction contents generalizing ranges with
  | nil => simp [waiting]
  | cons content contents ih =>
    cases ranges with
    | nil => rfl
    | cons range ranges => exact ih ranges

/-- Any one that waits can be parted from the others. -/
theorem exists_parted {range : Span} {content : Text}
    (member : (range, content) ∈ waiting ranges contents) :
    ∃ first later, Parted contents first later ∧ waiting ranges first = [(range, content)] ∧
      (waiting ranges contents).Perm ((range, content) :: waiting ranges later) := by
  induction contents generalizing ranges with
  | nil => simp [waiting] at member
  | cons head contents ih =>
    cases ranges with
    | nil => simp [waiting] at member
    | cons next ranges =>
      have isLater : (range, content) ∈ waiting ranges contents →
          ∃ first later, Parted (head :: contents) first later ∧
            waiting (next :: ranges) first = [(range, content)] ∧
            (waiting (next :: ranges) (head :: contents)).Perm
              ((range, content) :: waiting (next :: ranges) later) := by
        intro inRest
        obtain ⟨first, later, parted, one, others⟩ := ih inRest
        refine ⟨none :: first, head :: later, .after head parted, one, ?_⟩
        cases head with
        | none => exact others
        | some text => exact (others.cons _).trans (.swap _ _ _)
      cases head with
      | none => exact isLater member
      | some text =>
        rcases List.mem_cons.mp member with same | inRest
        · obtain ⟨rfl, rfl⟩ := Prod.mk.inj same
          refine ⟨some content :: contents.map fun _ => none, none :: contents,
            .now _ (parted_self contents), ?_, .refl _⟩
          rw [waiting_cons_some, waiting_none]
        · exact isLater inRest

theorem withContents_self (parts : List Section) :
    withContents parts (parts.map Section.content) = parts := by
  induction parts with
  | nil => rfl
  | cons part parts ih => exact congrArg (part :: ·) ih

section Contents
variable (same : contents.length = parts.length)
include same

theorem text_withContents (tail : Text) :
    text (withContents parts contents) tail = text parts tail := by
  induction parts generalizing contents with
  | nil =>
    rw [List.eq_nil_of_length_eq_zero same]
    rfl
  | cons part parts ih =>
    obtain ⟨content, more, rfl⟩ := List.exists_cons_of_length_eq_add_one same
    exact congrArg (fun rest => part.gap ++ (part.lines.text ++ rest)) (ih (Nat.succ.inj same))

theorem map_content_withContents :
    (withContents parts contents).map Section.content = contents := by
  induction parts generalizing contents with
  | nil =>
    rw [List.eq_nil_of_length_eq_zero same]
    rfl
  | cons part parts ih =>
    obtain ⟨content, more, rfl⟩ := List.exists_cons_of_length_eq_add_one same
    exact congrArg (content :: ·) (ih (Nat.succ.inj same))

theorem blocks_withContents (before : Text) :
    blocks before (withContents parts contents) = blocks before parts := by
  induction parts generalizing before contents with
  | nil =>
    rw [List.eq_nil_of_length_eq_zero same]
    rfl
  | cons part parts ih =>
    obtain ⟨content, more, rfl⟩ := List.exists_cons_of_length_eq_add_one same
    exact congrArg (part.lines.block (before ++ part.gap) :: ·) (ih (Nat.succ.inj same) _)

/-- Where blocks are found does not depend on what they are filled with. -/
theorem Laid.withContents (laid : Laid before parts tail ranges) :
    Laid before (withContents parts contents) tail ranges := by
  induction laid generalizing contents with
  | nil =>
    rw [List.eq_nil_of_length_eq_zero same]
    exact .nil _ _
  | cons proper placed rest ih =>
    obtain ⟨content, more, rfl⟩ := List.exists_cons_of_length_eq_add_one same
    have sameRest := Nat.succ.inj same
    exact .cons proper (by rw [text_withContents sameRest]; exact placed) (ih sameRest)

theorem filledText_of_none_waiting (laid : Laid before parts tail ranges)
    (empty : waiting ranges contents = []) :
    filledText (Layout.withContents parts contents) tail = text parts tail := by
  induction laid generalizing contents with
  | nil =>
    rw [List.eq_nil_of_length_eq_zero same]
    rfl
  | @cons before part parts tail range ranges proper placed rest ih =>
    obtain ⟨content, more, rfl⟩ := List.exists_cons_of_length_eq_add_one same
    cases content with
    | some content => cases empty
    | none =>
      exact congrArg (fun rest => part.gap ++ (part.lines.text ++ rest))
        (ih (Nat.succ.inj same) empty)

end Contents

/-- A later fill goes on from the document that the first one left: together they fill what
both of them fill. -/
theorem filledText_refilled (parted : Parted contents first later)
    (same : contents.length = parts.length) (carry tail : Text) :
    filledText (withContents (refilled carry (withContents parts first)) later)
        (refilledTail carry (withContents parts first) tail) =
      carry ++ filledText (withContents parts contents) tail := by
  induction parted generalizing parts carry with
  | nil =>
    obtain rfl := List.eq_nil_of_length_eq_zero same.symm
    rfl
  | now content rest ih =>
    obtain ⟨part, more, rfl⟩ := List.exists_cons_of_length_eq_add_one same.symm
    have others := ih (Nat.succ.inj same) (Section.newlineBehind ⟨part.gap, part.lines, content⟩)
    simp only [withContents, refilled, refilledTail, filledText, others]
    simp [Section.refill, Section.newlineBehind]
  | after content rest ih =>
    obtain ⟨part, more, rfl⟩ := List.exists_cons_of_length_eq_add_one same.symm
    have others := ih (Nat.succ.inj same) []
    simp only [withContents, refilled, refilledTail, filledText]
    simp only [Section.newlineBehind, others]
    simp [Section.refill]

/-- The ranges of the blocks that are left to a later fill are moved by the edits. -/
theorem waiting_rangesAfter (parted : Parted contents first later)
    (same : contents.length = parts.length) (edits : List Edit) (before : Text)
    (ranges : List Span) :
    waiting (rangesAfter edits before (withContents parts first) ranges) later =
      (waiting ranges later).map fun (range, content) => (range.moved edits, content) := by
  induction parted generalizing parts before ranges with
  | nil => simp [waiting]
  | now content rest ih =>
    obtain ⟨part, more, rfl⟩ := List.exists_cons_of_length_eq_add_one same.symm
    cases ranges with
    | nil => rfl
    | cons range ranges => exact ih (Nat.succ.inj same) _ ranges
  | after content rest ih =>
    obtain ⟨part, more, rfl⟩ := List.exists_cons_of_length_eq_add_one same.symm
    cases ranges with
    | nil => rfl
    | cons range ranges =>
      have others := ih (Nat.succ.inj same) (before ++ part.gap ++ part.lines.text) ranges
      cases content with
      | none => exact others
      | some content => exact congrArg ((range.moved edits, content) :: ·) others

/-- The edits for the ranges that wait are those of the blocks found there. -/
theorem Laid.editsFor_waiting (laid : Laid before parts tail ranges)
    (contents : List (Option Text)) :
    Document.editsFor (before ++ text parts tail) (waiting ranges contents) =
      Document.ofFilled FencedBlock.edits (blocks before parts) contents := by
  induction laid generalizing contents with
  | nil => rfl
  | @cons before part parts tail range ranges proper placed rest ih =>
    have located := placed.locate?_eq
    simp only [List.append_assoc] at located ih
    cases contents with
    | nil => simp [waiting, Document.editsFor, Document.ofFilled]
    | cons content contents =>
      have others := ih contents
      unfold Document.editsFor Document.ofFilled at others ⊢
      cases content with
      | none => simpa [text, blocks] using others
      | some content => simp [text, blocks, located, others]

/-- A block that waits is located at its range. -/
theorem Laid.exists_located {range : Span} {content : Text}
    (laid : Laid before parts tail ranges) (member : (range, content) ∈ waiting ranges contents) :
    ∃ block, locate? (before ++ text parts tail) range = some block := by
  have inRanges : range ∈ ranges := by
    obtain ⟨⟨own, _⟩, inZip, found⟩ := List.mem_filterMap.mp member
    obtain ⟨text, -, same⟩ := Option.map_eq_some_iff.mp found
    obtain rfl : own = range := (Prod.mk.inj same).1
    exact (List.of_mem_zip inZip).1
  clear member
  induction laid with
  | nil => cases inRanges
  | @cons before part parts tail first ranges proper placed rest ih =>
    have located := placed.locate?_eq
    simp only [text, List.append_assoc] at located ih ⊢
    rcases List.mem_cons.mp inRanges with rfl | later
    · exact ⟨_, located⟩
    · exact ih later

theorem length_refilled (same : contents.length = parts.length) (carry : Text) :
    (refilled carry (withContents parts contents)).length = contents.length := by
  induction parts generalizing contents carry with
  | nil =>
    rw [List.eq_nil_of_length_eq_zero same]
    rfl
  | cons part parts ih =>
    obtain ⟨content, more, rfl⟩ := List.exists_cons_of_length_eq_add_one same
    exact congrArg Nat.succ (ih (Nat.succ.inj same) _)

/-- A fill of some of the blocks makes their edits, and leaves sections in which the others are
found where these edits have moved their ranges. -/
theorem Laid.fill (laid : Laid [] parts tail ranges) (same : first.length = parts.length) :
    let filled := Layout.withContents parts first
    let edits := Document.ofFilled FencedBlock.edits (blocks [] parts) first
    Edit.applyAll edits (text parts tail) =
        text (refilled [] filled) (refilledTail [] filled tail) ∧
      Laid [] (refilled [] filled) (refilledTail [] filled tail)
        (rangesAfter edits [] filled ranges) := by
  have filled := (laid.withContents same).filled
  rw [blocks_withContents same, map_content_withContents same, text_withContents same] at filled
  exact filled

/-- Filling the blocks that wait one after another, in any order, leaves the filled sections. -/
theorem Laid.fillInTurn_eq {order : List (Span × Text)} (laid : Laid [] parts tail ranges)
    (same : contents.length = parts.length) (listed : order.Perm (waiting ranges contents)) :
    Document.fillInTurn (text parts tail) [] order =
      some (filledText (Layout.withContents parts contents) tail) := by
  -- every fill moves the ranges that are left, so the induction is on how many there are
  induction count : order.length generalizing order parts tail ranges contents with
  | zero =>
    obtain rfl := List.eq_nil_of_length_eq_zero count
    rw [filledText_of_none_waiting same laid listed.nil_eq.symm]
    rfl
  | succ n ih =>
    obtain ⟨⟨range, content⟩, rest, rfl⟩ := List.exists_cons_of_length_eq_add_one count
    have member := listed.mem_iff.mp List.mem_cons_self
    obtain ⟨first, later, parted, one, others⟩ := exists_parted member
    obtain ⟨block, located⟩ := laid.exists_located member
    obtain ⟨firstLength, laterLength⟩ := parted.length_eq
    have sameFirst := firstLength.trans same
    -- the first fill makes the edits of this block alone
    have edits : Document.ofFilled FencedBlock.edits (blocks [] parts) first =
        block.edits content := by
      rw [← laid.editsFor_waiting first, one]
      rw [List.nil_append] at located ⊢
      simp [Document.editsFor, located]
    obtain ⟨made, after⟩ := laid.fill sameFirst
    rw [edits] at made after
    have restListed : (rest.map fun (range, text) => (range.moved (block.edits content), text)).Perm
        (waiting (rangesAfter (block.edits content) [] (Layout.withContents parts first) ranges)
          later) := by
      rw [waiting_rangesAfter parted same]
      exact (listed.trans others).cons_inv.map _
    have lengths : later.length = (refilled [] (Layout.withContents parts first)).length := by
      rw [length_refilled sameFirst, firstLength, laterLength]
    calc Document.fillInTurn (text parts tail) [] ((range, content) :: rest)
        = Document.fillInTurn (Edit.applyAll (block.edits content) (text parts tail))
            [block.edits content] rest := by
          rw [List.nil_append] at located
          simp [Document.fillInTurn, located]
      _ = some (filledText (Layout.withContents (refilled [] (Layout.withContents parts first))
            later) (refilledTail [] (Layout.withContents parts first) tail)) := by
          rw [Document.fillInTurn_cons, made]
          exact ih after lengths restListed (by rw [List.length_map]; exact Nat.succ.inj count)
      _ = some (filledText (Layout.withContents parts contents) tail) := by
          rw [filledText_refilled parted same, List.nil_append]

end Layout

namespace Document
variable {text : Text} {ranges : List Span} {chosen order : List (Span × Text)}

theorem waiting_chosen (chosen : List (Span × Text)) :
    Layout.waiting (chosen.map Prod.fst) (chosen.map fun (_, content) => some content) =
      chosen := by
  induction chosen with
  | nil => rfl
  | cons next chosen ih => exact congrArg (next :: ·) ih

/-- Filling any of the blocks of a document one after another, in any order, does what making
all their edits at once does. -/
theorem fillInTurn_eq_applyAll (ordered : RangesInOrder text ranges)
    (subset : List.Sublist (chosen.map Prod.fst) ranges) (reordered : order.Perm chosen) :
    fillInTurn text [] order = some (Edit.applyAll (editsFor text chosen) text) := by
  have chosenOrdered : RangesInOrder text (chosen.map Prod.fst) :=
    ⟨fun range member => ordered.proper range (subset.subset member),
      fun range member => ordered.opening range (subset.subset member), ordered.apart.sublist subset⟩
  have sameLength : (blocksAt (chosen.map Prod.fst) text).length =
      (chosen.map fun (_, content) => some content).length := by
    rw [Layout.length_blocksAt chosenOrdered, List.length_map, List.length_map]
  obtain ⟨parts, tail, rfl, laid, contents, -⟩ := Layout.exists_sections chosenOrdered sameLength
  have same : (parts.map Section.content).length = parts.length := List.length_map _
  have atOnce := laid.editsFor_waiting (parts.map Section.content)
  rw [List.nil_append, contents, waiting_chosen, ← contents] at atOnce
  rw [atOnce, laid.applyAll_eq, laid.fillInTurn_eq same, Layout.withContents_self]
  rw [contents, waiting_chosen]
  exact reordered

/-- A closed block, one that only the end of its quote ends, and one without a line behind its
opening fence. -/
def threeBlocks : Text := "```a\nold\n````\n\n> ~~~b\n> x\n\n- ```c".toList

/-- The last block is filled first, and the first one with a fence that has to be widened. -/
theorem fillInTurn_eq_applyAll_threeBlocks :
    let ranges := CommonMark.fencedRanges threeBlocks
    let chosen := [(⟨0, 13⟩, "```\nnew".toList), (⟨17, 26⟩, []), (⟨29, 33⟩, "z".toList)]
    let order := [(⟨29, 33⟩, "z".toList), (⟨0, 13⟩, "```\nnew".toList), (⟨17, 26⟩, [])]
    RangesInOrder threeBlocks ranges ∧ List.Sublist (chosen.map Prod.fst) ranges ∧
      order.Perm chosen ∧
      editsFor threeBlocks chosen =
        [⟨⟨5, 9⟩, "```\nnew\n".toList⟩, ⟨⟨0, 3⟩, "````".toList⟩, ⟨⟨9, 13⟩, "````".toList⟩,
          ⟨⟨22, 26⟩, "> ~~~\n".toList⟩, ⟨⟨33, 33⟩, "\n  z\n  ```".toList⟩] ∧
      fillInTurn threeBlocks [] order =
        some (Edit.applyAll (editsFor threeBlocks chosen) threeBlocks) := by
  intro ranges chosen order
  have ordered : RangesInOrder threeBlocks ranges := by decide +kernel
  have subset : List.Sublist (chosen.map Prod.fst) ranges := by decide +kernel
  have reordered : order.Perm chosen := by decide +kernel
  exact ⟨ordered, subset, reordered, by decide +kernel,
    fillInTurn_eq_applyAll ordered subset reordered⟩

end Document
end Transclusion
