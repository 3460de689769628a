import Transclusion.Proofs.SimultaneousSplice
import Transclusion.Splice.ByteOffsets

/-! Edits that keep apart may be listed in any order. The text that comes of them is put
together from parts of the source as it was and the new texts, by the positions the edits
had there; so it is with byte offsets, none of which is ever cut at a wrong place. -/
namespace Transclusion
open Text

namespace Edit

/-- Neither of two edits reaches into the other, and they replace different parts. They may
touch, and an edit that only inserts may stand at an end of the other. -/
def Apart (a b : Edit) : Prop :=
  (a.span.stop ≤ b.span.start ∨ b.span.stop ≤ a.span.start) ∧ a.span ≠ b.span

/-- The order of starts, and of stops where starts are the same. -/
def Precedes (a b : Edit) : Prop :=
  a.span.start < b.span.start ∨ a.span.start = b.span.start ∧ a.span.stop < b.span.stop

/-- The part of a source from a position on, with each edit's text between the part before
it and the part behind it. All positions are those of the source. -/
def patched (source : Text) (position : Nat) : List Edit → Text
  | [] => source.drop position
  | edit :: edits =>
    Span.slice ⟨position, edit.span.start⟩ source ++ edit.text ++
      patched source edit.span.stop edits

variable {edit : Edit} {edits more before behind : List Edit} {position : Nat}
  {source text : Text}

instance : DecidableRel Apart := fun _ _ => inferInstanceAs (Decidable (_ ∧ _))

theorem Apart.symm {a b : Edit} (apart : Apart a b) : Apart b a :=
  ⟨apart.1.symm, Ne.symm apart.2⟩

/-- Going through a text and cutting it by its own positions is the same. -/
theorem splice_eq_patched (ordered : InOrder edits)
    (later : ∀ edit ∈ edits, position ≤ edit.span.start) :
    splice position edits (source.drop position) = patched source position edits := by
  induction edits generalizing position with
  | nil => rfl
  | cons edit edits ih =>
    have start := later edit (by simp)
    have proper := ordered.proper edit (by simp)
    have rest := ih ordered.tail
      fun other member => ((List.pairwise_cons.mp ordered.apart).1 other member).1
    have behind : edit.span.behind position (source.drop position) =
        source.drop edit.span.stop := by
      rw [Span.behind, List.drop_drop, Nat.add_sub_cancel' (Nat.le_trans start proper)]
    simp only [splice, patched, behind, rest, Span.gap, Span.slice, List.drop_take]

/-- What stands in front of a new text and what stands behind it are patched each on their
own: no edit moves what another one replaces. -/
theorem patched_append (ordered : InOrder (before ++ edit :: behind)) :
    patched source position (before ++ edit :: behind) =
      patched (source.take edit.span.start) position before ++ edit.text ++
        patched source edit.span.stop behind := by
  induction before generalizing position with
  | nil => rfl
  | cons first before ih =>
    have proper := ordered.proper first (by simp)
    have apart := ((List.pairwise_cons.mp ordered.apart).1 edit (by simp)).1
    have gap : Span.slice ⟨position, first.span.start⟩ (source.take edit.span.start) =
        Span.slice ⟨position, first.span.start⟩ source := by
      simp only [Span.slice, List.take_take, Nat.min_eq_left (Nat.le_trans proper apart)]
    rw [List.cons_append, patched, patched, gap, ih ordered.tail]
    simp only [List.append_assoc]

/-- Edits that keep apart have one order. -/
theorem exists_inOrder (proper : ∀ edit ∈ edits, edit.span.start ≤ edit.span.stop)
    (apart : edits.Pairwise Apart) :
    ∃ ordered, ordered.Perm edits ∧ ordered.Pairwise Precedes ∧ InOrder ordered := by
  have listed : (edits.mergeSort noLater).reverse.Perm edits :=
    (List.reverse_perm _).trans (List.mergeSort_perm edits noLater)
  have sorted : (edits.mergeSort noLater).reverse.Pairwise fun a b => noLater b a = true :=
    List.pairwise_reverse.mpr (List.pairwise_mergeSort noLater_trans noLater_total edits)
  have stillApart : (edits.mergeSort noLater).reverse.Pairwise Apart :=
    (listed.pairwise_iff Apart.symm).mpr apart
  generalize (edits.mergeSort noLater).reverse = ordered at listed sorted stillApart
  have properOrdered : ∀ edit ∈ ordered, edit.span.start ≤ edit.span.stop :=
    fun edit member => proper edit (listed.mem_iff.mp member)
  have each := sorted.and stillApart
  have distinct : ∀ a b : Edit, a.span ≠ b.span →
      a.span.start ≠ b.span.start ∨ a.span.stop ≠ b.span.stop := by
    intro a b different
    by_contra same
    apply different
    cases aSpan : a.span
    cases bSpan : b.span
    simp_all
  refine ⟨ordered, listed, each.imp_of_mem ?_, properOrdered, each.imp_of_mem ?_⟩
  · intro a b aMember bMember ⟨order, apart, different⟩
    have ends := distinct a b different
    simp only [noLater, Bool.or_eq_true, Bool.and_eq_true, decide_eq_true_eq, beq_iff_eq] at order
    unfold Precedes
    omega
  · intro a b aMember bMember ⟨order, apart, different⟩
    have aProper := properOrdered a aMember
    have bProper := properOrdered b bMember
    simp only [noLater, Bool.or_eq_true, Bool.and_eq_true, decide_eq_true_eq, beq_iff_eq] at order
    exact ⟨by omega, different⟩

section Bytes

/-- Byte offsets taken from a source are cuts of every text that starts like it. -/
theorem replaceBytes_inBytes (proper : edit.span.start ≤ edit.span.stop)
    (inside : edit.span.stop ≤ source.length)
    (same : text.take edit.span.stop = source.take edit.span.stop) :
    (edit.inBytes source).replaceBytes text = .ok (edit.apply text) := by
  let front : Text := source.take edit.span.start
  let part : Text := (source.take edit.span.stop).drop edit.span.start
  have upToStop : front ++ part = source.take edit.span.stop := by
    have takeStart : (source.take edit.span.stop).take edit.span.start = front := by
      rw [List.take_take, Nat.min_eq_left proper]
    rw [← takeStart, List.take_append_drop]
  have whole : text = front ++ (part ++ text.drop edit.span.stop) := by
    rw [← List.append_assoc, upToStop, ← same, List.take_append_drop]
  have start : (edit.inBytes source).span.start = front.byteLength := rfl
  have stop : (edit.inBytes source).span.stop = (front ++ part).byteLength := by
    rw [upToStop]
    rfl
  have between := between_append front part (text.drop edit.span.stop)
  have upTo := upTo_append front (part ++ text.drop edit.span.stop)
  have onward := onward_append (front ++ part) (text.drop edit.span.stop)
  rw [List.append_assoc, ← whole] at onward
  rw [← whole] at between upTo
  have frontOnly : text.take edit.span.start = front := by
    conv => lhs; rw [whole]
    apply List.take_left'
    rw [List.length_take]
    omega
  unfold replaceBytes
  rw [start, stop, between, upTo, onward, apply, frontOnly]
  rfl

/-- From the back to the front, every edit finds its part at the offsets it has in the
source. -/
theorem foldrM_replaceBytes (ordered : InOrder edits)
    (inside : ∀ edit ∈ edits, edit.span.stop ≤ source.length) :
    edits.foldrM (fun edit text => (edit.inBytes source).replaceBytes text) source =
      .ok (edits.foldr Edit.apply source) := by
  induction edits with
  | nil => rfl
  | cons edit edits ih =>
    have within := inside edit (by simp)
    have apart : ∀ other ∈ edits, edit.span.stop ≤ other.span.start :=
      fun other member => ((List.pairwise_cons.mp ordered.apart).1 other member).1
    have insideRest : ∀ other ∈ edits, other.span.stop ≤ source.length :=
      fun other member => inside other (by simp [member])
    have same : (edits.foldr Edit.apply source).take edit.span.stop =
        source.take edit.span.stop := by
      rw [foldr_apply ordered.tail apart insideRest within]
      apply List.take_left'
      rw [List.length_take, Nat.min_eq_left within]
    rw [List.foldrM_cons, ih ordered.tail insideRest]
    exact replaceBytes_inBytes (ordered.proper edit (by simp)) within same

theorem noLater_inBytes {a b : Edit}
    (aInside : a.span.start ≤ a.span.stop ∧ a.span.stop ≤ source.length)
    (bInside : b.span.start ≤ b.span.stop ∧ b.span.stop ≤ source.length) :
    noLater a b = noLater (a.inBytes source) (b.inBytes source) := by
  have aStart := Nat.le_trans aInside.1 aInside.2
  have bStart := Nat.le_trans bInside.1 bInside.2
  have starts := byteOffset_lt_iff source bStart aStart
  have startsBack := byteOffset_lt_iff source aStart bStart
  have sameStart : source.byteOffset b.span.start = source.byteOffset a.span.start ↔
      b.span.start = a.span.start := by omega
  have stops := byteOffset_le_iff source bInside.2 aInside.2
  apply Bool.eq_iff_iff.mpr
  simp only [noLater, inBytes, Span.inBytes, Bool.or_eq_true, Bool.and_eq_true,
    decide_eq_true_eq, beq_iff_eq, starts, sameStart, stops]

/-- With byte offsets the same text comes out, and no cut is refused. -/
theorem replaceAllBytes_inBytes (ordered : InOrder edits)
    (inside : ∀ edit ∈ edits, edit.span.stop ≤ source.length) (listed : more.Perm edits) :
    replaceAllBytes (more.map (inBytes source)) source = .ok (applyAll more source) := by
  have within : ∀ edit ∈ more, edit.span.start ≤ edit.span.stop ∧
      edit.span.stop ≤ source.length := fun edit member =>
    ⟨ordered.proper edit (listed.mem_iff.mp member), inside edit (listed.mem_iff.mp member)⟩
  have sorted := List.map_mergeSort (r := noLater) (s := noLater) (f := inBytes source) (l := more)
    fun a aMember b bMember => noLater_inBytes (within a aMember) (within b bMember)
  unfold replaceAllBytes applyAll
  rw [← sorted, ordered.mergeSort_perm listed, List.foldlM_map, List.foldlM_reverse,
    List.foldl_reverse]
  exact foldrM_replaceBytes ordered inside

end Bytes

/-- Edits that keep apart are made all at once, whatever order they are listed in and
however much longer or shorter a text gets: in the order of their parts, the untouched
parts of the source take turns with the new texts. Each new text stands between what the
edits before it make of the source up to there and what those behind it make of the rest. -/
theorem applyAll_simultaneous
    (inside : ∀ edit ∈ edits, edit.span.start ≤ edit.span.stop ∧ edit.span.stop ≤ source.length)
    (apart : edits.Pairwise Apart) :
    ∃ ordered, ordered.Perm edits ∧ ordered.Pairwise Precedes ∧
      (∀ more, more.Perm edits →
        applyAll more source = patched source 0 ordered ∧
        replaceAllBytes (more.map (inBytes source)) source = .ok (patched source 0 ordered)) ∧
      ∀ before edit behind, ordered = before ++ edit :: behind →
        patched source 0 ordered =
          patched (source.take edit.span.start) 0 before ++ edit.text ++
            patched source edit.span.stop behind := by
  obtain ⟨ordered, listed, ascending, inOrder⟩ :=
    exists_inOrder (fun edit member => (inside edit member).1) apart
  have within : ∀ edit ∈ ordered, edit.span.stop ≤ source.length :=
    fun edit member => (inside edit (listed.mem_iff.mp member)).2
  refine ⟨ordered, listed, ascending, ?_, ?_⟩
  · intro more same
    have made : applyAll more source = patched source 0 ordered := by
      rw [applyAll_eq_splice inOrder within (same.trans listed.symm)]
      exact splice_eq_patched inOrder fun _ _ => Nat.zero_le _
    rw [replaceAllBytes_inBytes inOrder within (same.trans listed.symm)]
    exact ⟨made, congrArg Except.ok made⟩
  · rintro before edit behind rfl
    exact patched_append inOrder

/-- A block without lines that is filled and gets longer fences: the insertion of its body
touches the closing fence, which starts where the insertion does. -/
theorem applyAll_simultaneous_widened :
    let source := "é```\n```\n".toList
    let edits : List Edit := [⟨⟨5, 5⟩, "```é\n".toList⟩, ⟨⟨1, 4⟩, "````".toList⟩,
      ⟨⟨5, 8⟩, "````".toList⟩]
    (∀ edit ∈ edits, edit.span.start ≤ edit.span.stop ∧ edit.span.stop ≤ source.length) ∧
    edits.Pairwise Apart ∧
    ∃ ordered, ordered.Perm edits ∧ ordered.Pairwise Precedes ∧
      (∀ more, more.Perm edits →
        applyAll more source = patched source 0 ordered ∧
        replaceAllBytes (more.map (inBytes source)) source = .ok (patched source 0 ordered)) ∧
      ∀ before edit behind, ordered = before ++ edit :: behind →
        patched source 0 ordered =
          patched (source.take edit.span.start) 0 before ++ edit.text ++
            patched source edit.span.stop behind := by
  intro source edits
  have inside : ∀ edit ∈ edits, edit.span.start ≤ edit.span.stop ∧
      edit.span.stop ≤ source.length := by decide
  have apart : edits.Pairwise Apart := by decide
  exact ⟨inside, apart, applyAll_simultaneous inside apart⟩

end Edit
end Transclusion
