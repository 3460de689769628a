import Transclusion.FencedBlock

/-! The fence chosen for a snippet. It is longer than every run of its marker at the front
of a snippet line, it is chosen once and for all, and only a fence that grows is written
again, on both lines of a closed block. -/
namespace Transclusion
open Text

namespace Fence
variable {fence other : Fence} {lines : List Text}

theorem widenFor_marker (fence : Fence) (lines : List Text) :
    (fence.widenFor lines).marker = fence.marker := by
  unfold widenFor
  dsimp only
  split <;> rfl

theorem length_le_widenFor (fence : Fence) (lines : List Text) :
    fence.length ≤ (fence.widenFor lines).length := by
  unfold widenFor
  dsimp only
  split
  · exact Nat.le_succ_of_le ‹_›
  · exact Nat.le_refl _

theorem runIn_congr (same : fence.marker = other.marker) : fence.runIn = other.runIn := by
  funext line
  unfold runIn
  rw [same]

/-- The chosen fence is longer than every run at the front of a line. -/
theorem longest_lt_widenFor (fence : Fence) (lines : List Text) :
    (lines.map fence.runIn).foldl max 0 < (fence.widenFor lines).length := by
  unfold widenFor
  dsimp only
  split
  · exact Nat.lt_succ_self _
  · omega

private theorem foldl_max_lt_iff {runs : List Nat} {start n : Nat} :
    runs.foldl max start < n ↔ start < n ∧ ∀ run ∈ runs, run < n := by
  induction runs generalizing start with
  | nil => simp
  | cons first runs ih =>
    rw [List.foldl_cons, ih, Nat.max_lt, and_assoc, List.forall_mem_cons]

theorem runIn_lt_widenFor {line : Text} (member : line ∈ lines) :
    fence.runIn line < (fence.widenFor lines).length :=
  (foldl_max_lt_iff.mp (longest_lt_widenFor fence lines)).2 _ (List.mem_map_of_mem member)

/-- The chosen fence is no longer than it has to be. -/
theorem length_widenFor_le_iff (positive : 0 < fence.length) {length : Nat} :
    (fence.widenFor lines).length ≤ length ↔
      fence.length ≤ length ∧ ∀ line ∈ lines, fence.runIn line < length := by
  constructor
  · intro reaches
    exact ⟨Nat.le_trans (length_le_widenFor fence lines) reaches,
      fun line member => Nat.lt_of_lt_of_le (runIn_lt_widenFor member) reaches⟩
  · rintro ⟨longer, exceeds⟩
    have longest : (lines.map fence.runIn).foldl max 0 < length :=
      foldl_max_lt_iff.mpr ⟨Nat.lt_of_lt_of_le positive longer, by simpa using exceeds⟩
    unfold widenFor
    dsimp only
    split
    · exact longest
    · exact longer

/-- A fence that is long enough stays. -/
theorem widenFor_eq_self (longer : (lines.map fence.runIn).foldl max 0 < fence.length) :
    fence.widenFor lines = fence := by
  unfold widenFor
  simp only [Nat.not_le.mpr longer, ↓reduceIte]

theorem lt_widenFor_of_ne (widened : fence.widenFor lines ≠ fence) :
    fence.length < (fence.widenFor lines).length := by
  refine Nat.lt_of_le_of_ne (length_le_widenFor fence lines) ?_
  intro same
  refine widened ?_
  cases chosen : fence.widenFor lines with
  | mk marker length =>
    have sameMarker := widenFor_marker fence lines
    rw [chosen] at same sameMarker
    cases fence
    simp_all

/-- A fence is widened once: the chosen one is long enough for the same lines. -/
theorem widenFor_widenFor (fence : Fence) (lines : List Text) :
    (fence.widenFor lines).widenFor lines = fence.widenFor lines := by
  refine widenFor_eq_self ?_
  rw [runIn_congr (widenFor_marker fence lines)]
  exact longest_lt_widenFor fence lines

end Fence

namespace FencedBlock

/-- The edit that writes a run of markers of another length, if it is another fence. -/
def runEdits (block : FencedBlock) (fence : Fence) (run : Span) : List Edit :=
  if fence = block.fence then []
  else [⟨run, List.replicate fence.length block.fence.marker⟩]

/-- The parts of a document that filling a block replaces, from front to back: the body
and, for a fence that grows, the run in front of it and the one behind it. -/
def replacements (block : FencedBlock) (content : Text) : List Edit :=
  let lines := contentLines content
  let fence := block.fence.widenFor lines
  block.runEdits fence block.opening ++
    ⟨block.body, block.bodyText lines fence⟩ :: block.closing.toList.flatMap (block.runEdits fence)

/-- The edits of a block are its replacements, listed in another order. -/
theorem replacements_perm (block : FencedBlock) (content : Text) :
    (block.replacements content).Perm (block.edits content) := by
  have run : List.replicate (block.fence.widenFor (contentLines content)).length
      block.fence.marker = (block.fence.widenFor (contentLines content)).render := by
    rw [Fence.render, Fence.widenFor_marker]
  unfold replacements edits runEdits
  dsimp only
  split
  · simp
  · simp only [run]
    cases block.closing with
    | none => exact List.Perm.swap _ _ _
    | some closing => exact List.Perm.swap _ _ _

/-- From the opening fence of a block to the end of its closing one, or of its body. -/
def extent (block : FencedBlock) : Span :=
  ⟨block.opening.start, (block.closing.getD block.body).stop⟩

theorem mem_runEdits {block : FencedBlock} {fence : Fence} {run : Span} {edit : Edit}
    (member : edit ∈ block.runEdits fence run) : edit.span = run := by
  unfold runEdits at member
  split at member
  · cases member
  · rw [List.mem_singleton.mp member]

/-- A replacement is one of the body, or one of a run by the chosen fence, which is longer. -/
theorem mem_replacements {block : FencedBlock} {content : Text} {edit : Edit}
    (member : edit ∈ block.replacements content) :
    edit.span = block.body ∨ (edit.span = block.opening ∨ block.closing = some edit.span) ∧
      block.fence.length < (block.fence.widenFor (contentLines content)).length ∧
      edit.text = List.replicate (block.fence.widenFor (contentLines content)).length
        block.fence.marker := by
  have ofRun : ∀ run, edit ∈ block.runEdits (block.fence.widenFor (contentLines content)) run →
      edit.span = run ∧ block.fence.length < (block.fence.widenFor (contentLines content)).length ∧
        edit.text = List.replicate (block.fence.widenFor (contentLines content)).length
          block.fence.marker := by
    intro run isRun
    refine ⟨mem_runEdits isRun, ?_⟩
    unfold runEdits at isRun
    split at isRun
    · cases isRun
    · next widened =>
      rw [List.mem_singleton.mp isRun]
      exact ⟨Fence.lt_widenFor_of_ne widened, rfl⟩
  rcases List.mem_append.mp member with opening | member
  · obtain ⟨span, longer⟩ := ofRun _ opening
    exact Or.inr ⟨Or.inl span, longer⟩
  rcases List.mem_cons.mp member with rfl | closing
  · exact Or.inl rfl
  · obtain ⟨run, isClosing, own⟩ := List.mem_flatMap.mp closing
    obtain ⟨span, longer⟩ := ofRun _ own
    exact Or.inr ⟨Or.inr (by rw [span]; exact Option.mem_toList.mp isClosing), longer⟩

end FencedBlock
end Transclusion
