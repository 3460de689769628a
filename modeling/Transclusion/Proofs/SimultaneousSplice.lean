import Mathlib.Data.List.Pairwise
import Transclusion.Splice

/-! Applying edits from the back of a text to its front makes all replacements at once.
The target is a splice that walks the text a single time from front to back and never
moves a position; edits whose spans do not overlap reach it in whatever order they are
listed. -/
namespace Transclusion

namespace Text

/-- Pieces of a text with others between them. -/
def interleave : (pieces between : List Text) → Text
  | [], between => between.flatten
  | piece :: pieces, [] => piece ++ pieces.flatten
  | piece :: pieces, other :: between => piece ++ other ++ interleave pieces between

end Text

namespace Span

/-- The part of a text before a span, counted from a position. -/
def gap (span : Span) (position : Nat) (rest : Text) : Text := rest.take (span.start - position)

/-- The part of a text behind a span, counted from a position. -/
def behind (span : Span) (position : Nat) (rest : Text) : Text := rest.drop (span.stop - position)

end Span

namespace Edit

/-- Every part replaced in one walk over the rest of a text that starts at a position. -/
def splice (position : Nat) : List Edit → Text → Text
  | [], rest => rest
  | edit :: edits, rest =>
    edit.span.gap position rest ++ edit.text ++
      splice edit.span.stop edits (edit.span.behind position rest)

/-- The parts of a text that edits leave alone: one before each edit and one behind all. -/
def kept (position : Nat) : List Edit → Text → List Text
  | [], rest => [rest]
  | edit :: edits, rest =>
    edit.span.gap position rest :: kept edit.span.stop edits (edit.span.behind position rest)

/-- How many characters edits write. -/
def added : List Edit → Nat
  | [] => 0
  | edit :: edits => edit.text.length + added edits

/-- How many characters edits replace. -/
def removed : List Edit → Nat
  | [] => 0
  | edit :: edits => edit.span.stop - edit.span.start + removed edits

/-- Where a position of a text is once the edits are made: those before it move it by the
difference of the lengths. -/
def moved (edits : List Edit) (position : Nat) : Nat :=
  let before := edits.filter fun edit => edit.span.stop ≤ position
  position + added before - removed before

/-- Edits listed from front to back, none of which reaches into the next. Two of them may
touch, but no two replace the same part. -/
structure InOrder (edits : List Edit) : Prop where
  proper : ∀ edit ∈ edits, edit.span.start ≤ edit.span.stop
  apart : edits.Pairwise fun a b => a.span.stop ≤ b.span.start ∧ a.span ≠ b.span

instance (edits : List Edit) : Decidable (InOrder edits) :=
  decidable_of_iff ((∀ edit ∈ edits, edit.span.start ≤ edit.span.stop) ∧
      edits.Pairwise fun a b => a.span.stop ≤ b.span.start ∧ a.span ≠ b.span)
    ⟨fun ⟨proper, apart⟩ => ⟨proper, apart⟩, fun ordered => ⟨ordered.proper, ordered.apart⟩⟩

variable {edit : Edit} {edits more : List Edit} {position : Nat} {text rest : Text}

theorem InOrder.tail (ordered : InOrder (edit :: edits)) : InOrder edits :=
  ⟨fun other member => ordered.proper other (by simp [member]), ordered.apart.of_cons⟩

/-- A text in front of all edits is kept as it is. -/
theorem splice_skip (front : Text)
    (later : ∀ edit ∈ edits, position + front.length ≤ edit.span.start)
    (proper : ∀ edit ∈ edits, edit.span.start ≤ edit.span.stop) :
    splice position edits (front ++ rest) =
      front ++ splice (position + front.length) edits rest := by
  cases edits with
  | nil => rfl
  | cons edit edits =>
    have start := later edit (by simp)
    have stop := proper edit (by simp)
    have gapSplit : edit.span.start - position =
        front.length + (edit.span.start - (position + front.length)) := by omega
    have behindSplit : edit.span.stop - position =
        front.length + (edit.span.stop - (position + front.length)) := by omega
    simp only [splice, Span.gap, Span.behind, gapSplit, behindSplit, List.take_length_add_append,
      List.drop_length_add_append, List.append_assoc]

/-- One replacement: what stands before it is kept, the part itself is exchanged. -/
theorem splice_replace (front part text : Text) :
    splice position (⟨⟨position + front.length, position + front.length + part.length⟩, text⟩ ::
        edits) (front ++ (part ++ rest)) =
      front ++ (text ++ splice (position + front.length + part.length) edits rest) := by
  have gapLength : position + front.length - position = front.length := by omega
  have behindLength : position + front.length + part.length - position =
      (front ++ part).length := by
    simp only [List.length_append]
    omega
  simp only [splice, Span.gap, Span.behind, gapLength, behindLength, List.take_left]
  rw [← List.append_assoc front part, List.drop_left, List.append_assoc]

/-- Going from the back to the front, no replacement moves a part still to be replaced. -/
theorem foldr_apply (ordered : InOrder edits) (later : ∀ edit ∈ edits, position ≤ edit.span.start)
    (inside : ∀ edit ∈ edits, edit.span.stop ≤ text.length) (bound : position ≤ text.length) :
    edits.foldr Edit.apply text =
      text.take position ++ splice position edits (text.drop position) := by
  induction edits generalizing position with
  | nil => simp [splice]
  | cons edit edits ih =>
    have start := later edit (by simp)
    have stop := ordered.proper edit (by simp)
    have within := inside edit (by simp)
    have rest := ih ordered.tail
      (fun other member => ((List.pairwise_cons.mp ordered.apart).1 other member).1)
      (fun other member => inside other (by simp [member])) within
    have takeStart :
      (text.take edit.span.stop).take edit.span.start = text.take edit.span.start := by
      rw [List.take_take, Nat.min_eq_left stop]
    have frontSplit : text.take edit.span.start =
        text.take position ++ (text.drop position).take (edit.span.start - position) := by
      rw [← List.take_add, Nat.add_sub_cancel' start]
    have length : (text.take edit.span.stop).length = edit.span.stop := by simp [within]
    rw [List.foldr_cons, rest, Edit.apply,
      List.take_append_of_le_length (by rw [length]; exact stop), takeStart,
      List.drop_left' length, frontSplit]
    simp only [splice, Span.gap, Span.behind, List.drop_drop, List.append_assoc,
      Nat.add_sub_cancel' (Nat.le_trans start stop)]

theorem noLater_total (a b : Edit) : (noLater a b || noLater b a) = true := by
  simp only [noLater, Bool.or_eq_true, Bool.and_eq_true, decide_eq_true_eq, beq_iff_eq]
  omega

theorem noLater_trans (a b c : Edit) (first : noLater a b = true) (second : noLater b c = true) :
    noLater a c = true := by
  simp only [noLater, Bool.or_eq_true, Bool.and_eq_true, decide_eq_true_eq, beq_iff_eq]
    at first second ⊢
  omega

/-- Edits listed from front to back are applied in the reverse of that order. -/
theorem InOrder.mergeSort_perm (ordered : InOrder edits) (listed : more.Perm edits) :
    more.mergeSort noLater = edits.reverse := by
  have sorted := List.pairwise_mergeSort noLater_trans noLater_total more
  have reversed : edits.reverse.Pairwise fun a b => noLater a b = true := by
    rw [List.pairwise_reverse]
    refine ordered.apart.imp_of_mem ?_
    intro a b aMember bMember apart
    have aProper := ordered.proper a aMember
    have bProper := ordered.proper b bMember
    simp only [noLater, Bool.or_eq_true, Bool.and_eq_true, decide_eq_true_eq, beq_iff_eq]
    omega
  have perm : (more.mergeSort noLater).Perm edits.reverse :=
    (List.mergeSort_perm more noLater).trans (listed.trans (List.reverse_perm edits).symm)
  refine perm.eq_of_pairwise ?_ sorted reversed
  intro a b aMember bMember first second
  have sameSpan : a.span = b.span := by
    simp only [noLater, Bool.or_eq_true, Bool.and_eq_true, decide_eq_true_eq, beq_iff_eq]
      at first second
    cases aSpan : a.span with
    | mk aStart aStop =>
      cases bSpan : b.span with
      | mk bStart bStop =>
        simp only [aSpan, bSpan, Span.mk.injEq] at first second ⊢
        omega
  have aEdit : a ∈ edits := listed.mem_iff.mp (List.mem_mergeSort.mp aMember)
  have bEdit : b ∈ edits := List.mem_reverse.mp bMember
  -- two members with one span are the same member, since different ones have different spans
  by_cases same : a = b
  · exact same
  · have : Std.Symm fun a b : Edit => a.span ≠ b.span := ⟨fun _ _ => Ne.symm⟩
    have distinct : edits.Pairwise fun a b => a.span ≠ b.span := ordered.apart.imp And.right
    exact absurd sameSpan (distinct.forall aEdit bEdit same)

/-- All edits at once: the result is the walk over the text, in whatever order the edits
were listed. -/
theorem applyAll_eq_splice (ordered : InOrder edits)
    (inside : ∀ edit ∈ edits, edit.span.stop ≤ text.length) (listed : more.Perm edits) :
    applyAll more text = splice 0 edits text := by
  unfold applyAll
  rw [ordered.mergeSort_perm listed, List.foldl_reverse]
  simpa using foldr_apply ordered (fun _ _ => Nat.zero_le _) inside (Nat.zero_le _)

/-- Replacing parts by what they are changes nothing. -/
theorem applyAll_of_slices (proper : ∀ edit ∈ edits, edit.span.start ≤ edit.span.stop)
    (same : ∀ edit ∈ edits, edit.text = edit.span.slice text) : applyAll edits text = text := by
  have step : ∀ edit ∈ edits.mergeSort noLater, edit.apply text = text := by
    intro edit member
    have inEdits := List.mem_mergeSort.mp member
    have front : text.take edit.span.start = (text.take edit.span.stop).take edit.span.start := by
      rw [List.take_take, Nat.min_eq_left (proper edit inEdits)]
    rw [Edit.apply, same edit inEdits, Span.slice, front, List.take_append_drop,
      List.take_append_drop]
  unfold applyAll
  generalize edits.mergeSort noLater = sorted at step ⊢
  induction sorted with
  | nil => rfl
  | cons edit sorted ih =>
    rw [List.foldl_cons, step edit (by simp)]
    exact ih fun other member => step other (by simp [member])

theorem length_kept (position : Nat) (edits : List Edit) (rest : Text) :
    (kept position edits rest).length = edits.length + 1 := by
  induction edits generalizing position rest with
  | nil => rfl
  | cons edit edits ih => simp [kept, ih]

/-- The result is the kept parts with the new texts between them. -/
theorem splice_eq_interleave (position : Nat) (edits : List Edit) (rest : Text) :
    splice position edits rest =
      Text.interleave (kept position edits rest) (edits.map Edit.text) := by
  induction edits generalizing position rest with
  | nil => simp [splice, kept, Text.interleave]
  | cons edit edits ih => simp [splice, kept, Text.interleave, ih]

/-- The text is the kept parts with the replaced parts between them. -/
theorem eq_interleave_slices (ordered : InOrder edits)
    (later : ∀ edit ∈ edits, position ≤ edit.span.start) :
    text.drop position = Text.interleave (kept position edits (text.drop position))
      (edits.map fun edit => edit.span.slice text) := by
  induction edits generalizing position with
  | nil => simp [kept, Text.interleave]
  | cons edit edits ih =>
    have start := later edit (by simp)
    have stop := ordered.proper edit (by simp)
    have rest := ih ordered.tail
      fun other member => ((List.pairwise_cons.mp ordered.apart).1 other member).1
    have behind : edit.span.behind position (text.drop position) = text.drop edit.span.stop := by
      rw [Span.behind, List.drop_drop, Nat.add_sub_cancel' (Nat.le_trans start stop)]
    have sliced : edit.span.slice text = (text.drop edit.span.start).take
        (edit.span.stop - edit.span.start) := by
      rw [Span.slice, List.drop_take]
    simp only [kept, List.map_cons, Text.interleave, Span.gap, behind, sliced]
    rw [← rest, List.append_assoc]
    have stopSplit : edit.span.stop =
        edit.span.start + (edit.span.stop - edit.span.start) := by omega
    conv => rhs; arg 2; arg 2; rw [stopSplit, ← List.drop_drop]
    rw [List.take_append_drop]
    have startSplit : edit.span.start = position + (edit.span.start - position) := by omega
    conv => rhs; arg 2; rw [startSplit, ← List.drop_drop]
    rw [List.take_append_drop]

theorem added_append (edits more : List Edit) :
    added (edits ++ more) = added edits + added more := by
  induction edits with
  | nil => simp [added]
  | cons edit edits ih => simp [added, ih, Nat.add_assoc]

theorem removed_append (edits more : List Edit) :
    removed (edits ++ more) = removed edits + removed more := by
  induction edits with
  | nil => simp [removed]
  | cons edit edits ih => simp [removed, ih, Nat.add_assoc]

theorem added_perm (same : edits.Perm more) : added edits = added more := by
  induction same with
  | nil => rfl
  | cons edit _ ih => simp only [added, ih]
  | swap a b edits =>
    simp only [added]
    omega
  | trans _ _ first second => exact first.trans second

theorem removed_perm (same : edits.Perm more) : removed edits = removed more := by
  induction same with
  | nil => rfl
  | cons edit _ ih => simp only [removed, ih]
  | swap a b edits =>
    simp only [removed]
    omega
  | trans _ _ first second => exact first.trans second

theorem moved_perm (same : edits.Perm more) (position : Nat) :
    moved edits position = moved more position := by
  have before := same.filter fun edit : Edit => decide (edit.span.stop ≤ position)
  simp only [moved, added_perm before, removed_perm before]

/-- A text grows by what is written and shrinks by what is replaced. -/
theorem length_splice (ordered : InOrder edits) (later : ∀ edit ∈ edits, position ≤ edit.span.start)
    (inside : ∀ edit ∈ edits, edit.span.stop ≤ position + rest.length) :
    (splice position edits rest).length + removed edits = rest.length + added edits := by
  induction edits generalizing position rest with
  | nil => simp [splice, removed, added]
  | cons edit edits ih =>
    have start := later edit (by simp)
    have proper := ordered.proper edit (by simp)
    have within := inside edit (by simp)
    have behind : (edit.span.behind position rest).length =
        rest.length - (edit.span.stop - position) := List.length_drop
    have gap : (edit.span.gap position rest).length = edit.span.start - position := by
      rw [Span.gap, List.length_take]
      omega
    have step := @ih edit.span.stop (edit.span.behind position rest) ordered.tail
      (fun other member => ((List.pairwise_cons.mp ordered.apart).1 other member).1)
      (fun other member => by
        have := inside other (by simp [member])
        omega)
    simp only [splice, List.length_append, removed, added, gap]
    omega

/-- Only the edits in front of a position move it: it keeps its distance from where what
they leave ends. -/
theorem moved_append {base shifted : Nat} (earlier : ∀ edit ∈ edits, edit.span.stop ≤ position)
    (later : ∀ edit ∈ more, position < edit.span.stop)
    (lengths : shifted + removed edits = base + added edits) (bound : base ≤ position) :
    moved (edits ++ more) position = shifted + (position - base) := by
  have before : (edits ++ more).filter (fun edit => edit.span.stop ≤ position) = edits := by
    rw [List.filter_append, List.filter_eq_self.mpr (by simpa using earlier),
      List.filter_eq_nil_iff.mpr (by simpa using later), List.append_nil]
  simp only [moved, before]
  omega

end Edit
end Transclusion
