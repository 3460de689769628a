import Transclusion.Proofs.BlockLines
import Transclusion.Proofs.FenceWidening
import Transclusion.Proofs.SimultaneousSplice

/-! Filling a located block. Its replacements, made at once, leave the lines of another
block, which is written down here. Locating that block and filling it again with the same
content changes nothing, whether or not its own last line is taken for a closing fence. -/
namespace Transclusion
open Text

namespace BlockLines
open FencedBlock

variable {lines : BlockLines} {before after : Text}

/-- What the body holds: all lines in front of the closing line, if there is one. -/
def body (lines : BlockLines) : Text :=
  if lines.closingRun?.isSome then lines.inner.take lines.lastStart else lines.inner

/-- The snippet as it is written into the body. -/
def written (lines : BlockLines) (content : Text) : Text :=
  ((contentLines content).map (lines.block []).bodyLine).flatten

/-- How long a run of markers is once the fence is chosen. -/
def runLength (lines : BlockLines) (fence : Fence) (run : Nat) : Nat :=
  if fence = lines.fence then run else fence.length

/-- What stands behind a body that was written: the closing line with its run exchanged, or
a closing fence of its own. -/
def closingText (lines : BlockLines) (fence : Fence) : Text :=
  match lines.closingRun? with
  | none => Container.continuation lines.lead ++ fence.render
  | some (place, run) =>
    let rest := lines.inner.drop lines.lastStart
    rest.take place ++ (List.replicate (lines.runLength fence run) lines.fence.marker ++
      rest.drop (place + run))

/-- The lines of the block once it is filled. -/
def refill (lines : BlockLines) (content : Text) : BlockLines :=
  let fence := lines.fence.widenFor (contentLines content)
  { lines with
    fence
    newline := true
    inner := lines.written content ++ lines.closingText fence }

/-- The newline that follows a closing fence of its own, where the block had one. -/
def newlineBehind (lines : BlockLines) : Text :=
  if lines.closingRun?.isNone && lines.text.getLast? == some '\n' then ['\n'] else []

/-- A closing line taken apart: what stands in front of its run, and all that stands
behind it. Another run that is long enough would close there as well, also with nothing
behind it. -/
structure ClosedBy (lines : BlockLines) (run : Nat) (front rest : Text) : Prop where
  found : lines.closingRun? = some (front.length, run)
  whole : lines.inner = lines.body ++ (front ++ (List.replicate run lines.fence.marker ++ rest))
  body_ends : EndsLine lines.body
  body_length : lines.body.length = lines.lastStart
  enough : lines.fence.length ≤ run
  again : ∀ (other : BlockLines) (body behind : Text) (longer : Nat), other.lead = lines.lead →
    other.fence.marker = lines.fence.marker → EndsLine body → 0 < longer →
    other.fence.length ≤ longer → behind = rest ∨ behind = [] →
    other.inner = body ++ (front ++ (List.replicate longer lines.fence.marker ++ behind)) →
    other.closingRun? = some (front.length, longer) ∧ other.lastStart = body.length

theorem exists_closedBy {place run : Nat} (valid : lines.Valid)
    (found : lines.closingRun? = some (place, run)) :
    ∃ front rest, front.length = place ∧ lines.ClosedBy run front rest := by
  obtain ⟨body, line, ends, last⟩ := exists_lastLine (valid.content_ne_nil found)
  obtain ⟨content, start, search⟩ := last.closingRun?_eq
  rw [search] at found
  obtain ⟨front, blanks, rfl, place, enough, marks, blank, again⟩ :=
    Fence.exists_closing_line valid.marker valid.positive found
  have frontFree : '\n' ∉ front := fun member => by simpa using marks _ member
  have bodyEq : lines.body = body := by
    have closed : lines.closingRun?.isSome = true := by rw [search, found]; rfl
    rw [BlockLines.body, closed, start, last.whole, List.append_assoc]
    exact List.take_left' rfl
  refine ⟨front, blanks ++ ends, place, ?_, ?_, ?_, ?_, enough, ?_⟩
  · rw [search, found, place]
  · rw [bodyEq, last.whole]
    simp
  · rw [bodyEq]
    exact last.front_ends
  · rw [bodyEq, start]
  · intro other otherBody behind longer sameLead sameMarker bodyEnds positive reaches isBehind inner
    have marker := FencedBlock.isMarker_not_space valid.marker
    -- what stands behind the run is cut where the line is
    obtain ⟨others, otherEnds, rfl, othersBlank, othersFree, othersLast, endsAll⟩ :
        ∃ others otherEnds, behind = others ++ otherEnds ∧ (∀ c ∈ others, isWhiteSpace c = true) ∧
          '\n' ∉ others ∧ (∀ c, others.getLast? = some c → isLineEnd c = false) ∧
          ∀ c ∈ otherEnds, isLineEnd c = true := by
      rcases isBehind with rfl | rfl
      · have free := last.line_free
        simp only [List.mem_append, not_or] at free
        refine ⟨blanks, ends, rfl, blank, free.2, ?_, last.ends_all⟩
        intro c isLast
        obtain ⟨d, lastChar, kept⟩ := last.kept
        rw [List.getLast?_append, isLast] at lastChar
        rwa [Option.some.inj lastChar]
      · exact ⟨[], [], rfl, by simp, by simp, by simp, by simp⟩
    have lineFree : '\n' ∉ front ++ List.replicate longer lines.fence.marker ++ others := by
      simp only [List.mem_append, not_or]
      exact ⟨⟨frontFree, fun member => marker.2.2.2.1 (List.eq_of_mem_replicate member).symm⟩,
        othersFree⟩
    have kept : ∃ c, (front ++ List.replicate longer lines.fence.marker ++ others).getLast? =
        some c ∧ isLineEnd c = false := by
      cases othersEnd : others.getLast? with
      | none =>
        refine ⟨lines.fence.marker, ?_, by simp [isLineEnd, marker]⟩
        simp [List.getLast?_eq_none_iff.mp othersEnd, List.getLast?_append,
          List.getLast?_replicate, Nat.ne_of_gt positive]
      | some d => exact ⟨d, by simp [List.getLast?_append, othersEnd], othersLast d othersEnd⟩
    have otherLast : other.LastLine otherBody
        (front ++ List.replicate longer lines.fence.marker ++ others) otherEnds :=
      ⟨by rw [inner]; simp, bodyEnds, lineFree, kept, endsAll⟩
    obtain ⟨-, otherStart, otherSearch⟩ := otherLast.closingRun?_eq
    refine ⟨?_, otherStart⟩
    rw [otherSearch, sameLead, place]
    exact again other.fence longer sameMarker reaches positive others othersBlank

theorem ClosedBy.drop_eq {run : Nat} {front rest : Text} (closed : lines.ClosedBy run front rest) :
    lines.inner.drop lines.body.length =
      front ++ (List.replicate run lines.fence.marker ++ rest) := by
  conv => lhs; arg 2; rw [closed.whole]
  exact List.drop_left

theorem ClosedBy.closingText_eq {run : Nat} {front rest : Text}
    (closed : lines.ClosedBy run front rest) (fence : Fence) : lines.closingText fence =
      front ++ (List.replicate (lines.runLength fence run) lines.fence.marker ++ rest) := by
  simp [closingText, closed.found, ← closed.body_length, closed.drop_eq]

theorem body_prefix (lines : BlockLines) : lines.body <+: lines.inner := by
  unfold body
  split
  · exact List.take_prefix _ _
  · exact List.prefix_refl _

/-- The body of a valid block, where it starts and how long it is. -/
theorem block_body (valid : lines.Valid) (before : Text) : (lines.block before).body =
    ⟨lines.bodyStart before, lines.bodyStart before + lines.body.length⟩ := by
  cases found : lines.closingRun? with
  | none => simp [block, body, found]
  | some closing =>
    obtain ⟨place, run⟩ := closing
    obtain ⟨front, rest, -, closed⟩ := exists_closedBy valid found
    simp [block, found, closed.body_length]

/-- The parts of a block stand one behind the other inside its lines. -/
theorem block_spans (valid : lines.Valid) (before : Text) :
    let block := lines.block before
    before.length ≤ block.opening.start ∧ block.opening.start < block.opening.stop ∧
      block.opening.stop ≤ block.body.start ∧ block.body.start ≤ block.body.stop ∧
      block.body.stop ≤ (before ++ lines.text).length ∧
      ∀ closing, block.closing = some closing → block.body.stop ≤ closing.start ∧
        closing.start < closing.stop ∧ closing.stop ≤ (before ++ lines.text).length := by
  have positive := valid.positive
  have opening := length_openingLine lines
  have start : lines.bodyStart before =
      before.length + lines.openingLine.length + lines.ending.length := rfl
  have total : (before ++ lines.text).length = lines.bodyStart before + lines.inner.length := by
    simp [text, bodyStart, Nat.add_assoc]
  have inBody := lines.body_prefix.length_le
  dsimp only
  rw [block_body valid, total]
  dsimp only [block]
  refine ⟨by omega, by omega, by omega, by omega, by omega, ?_⟩
  intro closing isClosing
  cases found : lines.closingRun? with
  | none => simp [found] at isClosing
  | some pair =>
    obtain ⟨place, run⟩ := pair
    obtain ⟨front, rest, rfl, closed⟩ := exists_closedBy valid found
    have inner := congrArg List.length closed.whole
    simp only [List.length_append, List.length_replicate] at inner
    have length := closed.body_length
    have enough := closed.enough
    simp only [found, Option.map_some, Option.some.injEq] at isClosing
    subst isClosing
    dsimp only
    omega

theorem extent_stop_le (valid : lines.Valid) (before : Text) :
    (lines.block before).extent.stop ≤ (before ++ lines.text).length := by
  obtain ⟨-, -, -, -, bodyInside, closingBehind⟩ := block_spans valid before
  unfold extent
  cases isClosing : (lines.block before).closing with
  | none => exact bodyInside
  | some closing => exact (closingBehind closing isClosing).2.2

/-- The edit of a run of markers, if there is one, exchanges the run. -/
private theorem splice_runEdits (block : FencedBlock) (fence : Fence) {more : List Edit}
    (position : Nat) (front rest : Text) (run : Nat)
    (later : ∀ edit ∈ more, position + front.length + run ≤ edit.span.start)
    (proper : ∀ edit ∈ more, edit.span.start ≤ edit.span.stop) :
    Edit.splice position
        (block.runEdits fence ⟨position + front.length, position + front.length + run⟩ ++ more)
        (front ++ (List.replicate run block.fence.marker ++ rest)) =
      front ++ (List.replicate (if fence = block.fence then run else fence.length)
        block.fence.marker ++ Edit.splice (position + front.length + run) more rest) := by
  unfold runEdits
  split
  · have skip : Edit.splice position more ((front ++ List.replicate run block.fence.marker) ++ rest)
        = _ := Edit.splice_skip _ (by simpa [Nat.add_assoc] using later) proper
    simpa [Nat.add_assoc] using skip
  · have replace : Edit.splice position (_ :: more)
        (front ++ (List.replicate run block.fence.marker ++ rest)) = _ :=
      Edit.splice_replace _ _ (List.replicate fence.length block.fence.marker)
    simpa using replace

theorem Valid.text_ne_nil (valid : lines.Valid) : lines.text ≠ [] := by
  simp [text, openingLine, valid.render_eq]

/-- Only a block that was ended by a newline without being closed has one behind its new closing
fence. -/
theorem length_newlineBehind (valid : lines.Valid) (before : Text) : lines.newlineBehind.length =
    if (lines.block before).isClosed then 0
    else if (lines.block before).endsWithNewline then 1 else 0 := by
  have last : (before ++ lines.text).getLast? = lines.text.getLast? :=
    List.getLast?_append_of_ne_nil _ valid.text_ne_nil
  unfold newlineBehind isClosed block
  rw [last]
  cases lines.closingRun? <;> cases lines.text.getLast? == some '\n' <;> rfl

/-- The new body behind its opening line: a newline, the snippet, and for a block that was
not closed a closing fence with the newline it had. -/
private theorem ending_bodyText (valid : lines.Valid) (before content : Text) (fence : Fence) :
    lines.ending ++ (lines.block before).bodyText (contentLines content) fence =
      '\n' :: (lines.written content ++ if lines.closingRun?.isSome then [] else
        lines.closingText fence ++ lines.newlineBehind) := by
  have sameLines : (lines.block before).bodyLine = (lines.block []).bodyLine := rfl
  have last : (before ++ lines.text).getLast? = lines.text.getLast? :=
    List.getLast?_append_of_ne_nil _ valid.text_ne_nil
  unfold bodyText written isClosed
  rw [sameLines]
  cases found : lines.closingRun? with
  | none =>
    cases ended : lines.newline <;>
      simp [block, ending, ended, found, last, closingText, newlineBehind]
  | some closing =>
    cases ended : lines.newline <;> simp [block, ending, ended, found]

/-- Behind the body only the closing run can change. -/
private theorem splice_closing {more : List Edit} (valid : lines.Valid) (before rest : Text)
    (fence : Fence) (later : ∀ edit ∈ more, (before ++ lines.text).length ≤ edit.span.start)
    (proper : ∀ edit ∈ more, edit.span.start ≤ edit.span.stop) :
    Edit.splice (lines.bodyStart before + lines.body.length)
        ((lines.block before).closing.toList.flatMap ((lines.block before).runEdits fence) ++ more)
        (lines.inner.drop lines.body.length ++ rest) =
      (if lines.closingRun?.isSome then lines.closingText fence else []) ++
        Edit.splice (before ++ lines.text).length more rest := by
  have total : (before ++ lines.text).length = lines.bodyStart before + lines.inner.length := by
    simp [text, bodyStart, Nat.add_assoc]
  cases found : lines.closingRun? with
  | none => simp [block, body, found, total]
  | some closing =>
    obtain ⟨place, run⟩ := closing
    obtain ⟨front, behind, rfl, closed⟩ := exists_closedBy valid found
    have length := congrArg List.length closed.whole
    simp only [List.length_append, List.length_replicate] at length
    have closing : (lines.block before).closing =
        some ⟨lines.bodyStart before + lines.body.length + front.length,
          lines.bodyStart before + lines.body.length + front.length + run⟩ := by
      simp [block, found, closed.body_length]
    have exchange := splice_runEdits (lines.block before) fence
      (lines.bodyStart before + lines.body.length) front (behind ++ rest) run
      (fun edit member => by have := later edit member; omega) proper
    have skip : Edit.splice (lines.bodyStart before + lines.body.length + front.length + run) more
        (behind ++ rest) = _ :=
      Edit.splice_skip behind (fun edit member => by have := later edit member; omega) proper
    have stop : lines.bodyStart before + lines.body.length + front.length + run + behind.length =
        (before ++ lines.text).length := by omega
    rw [skip, stop] at exchange
    simp only [closing, Option.toList_some, List.flatMap_cons, List.flatMap_nil, List.append_nil,
      closed.drop_eq, List.append_assoc, Option.isSome_some, ↓reduceIte, closed.closingText_eq]
    exact exchange

/-- The edit of the body, and those behind it. -/
private theorem splice_body {more : List Edit} (valid : lines.Valid) (before content rest : Text)
    (fence : Fence) (later : ∀ edit ∈ more, (before ++ lines.text).length ≤ edit.span.start)
    (proper : ∀ edit ∈ more, edit.span.start ≤ edit.span.stop) :
    Edit.splice (lines.block before).opening.stop
        (⟨(lines.block before).body, (lines.block before).bodyText (contentLines content) fence⟩ ::
          ((lines.block before).closing.toList.flatMap ((lines.block before).runEdits fence) ++
            more))
        (lines.tail ++ lines.ending ++
          (lines.body ++ (lines.inner.drop lines.body.length ++ rest))) =
      lines.tail ++ '\n' :: (lines.written content ++ (lines.closingText fence ++
        (lines.newlineBehind ++ Edit.splice (before ++ lines.text).length more rest))) := by
  have start : lines.bodyStart before =
      (lines.block before).opening.stop + (lines.tail ++ lines.ending).length := by
    simp only [block, bodyStart, length_openingLine, List.length_append, Nat.add_assoc]
  rw [block_body valid, start, Edit.splice_replace, ← start,
    splice_closing valid before rest fence later proper,
    List.append_assoc lines.tail, ← List.append_assoc lines.ending, ending_bodyText valid]
  cases found : lines.closingRun? with
  | none => simp
  | some closing => simp [newlineBehind, found]

/-- Making the replacements of a block leaves the lines of the filled one. -/
theorem splice_replacements {more : List Edit} (valid : lines.Valid) (before content rest : Text)
    (later : ∀ edit ∈ more, (before ++ lines.text).length ≤ edit.span.start)
    (proper : ∀ edit ∈ more, edit.span.start ≤ edit.span.stop) :
    Edit.splice before.length ((lines.block before).replacements content ++ more)
        (lines.text ++ rest) =
      (lines.refill content).text ++
        (lines.newlineBehind ++ Edit.splice (before ++ lines.text).length more rest) := by
  obtain ⟨-, -, openingStop, bodyProper, bodyInside, closingBehind⟩ := block_spans valid before
  let fence := lines.fence.widenFor (contentLines content)
  have marker : fence.marker = lines.fence.marker := Fence.widenFor_marker _ _
  have run : List.replicate (if fence = lines.fence then lines.fence.length else fence.length)
      lines.fence.marker = fence.render := by
    unfold Fence.render
    rw [marker]
    split
    · next same => rw [same]
    · rfl
  have doc : lines.text ++ rest = lines.lead ++ (List.replicate lines.fence.length
      lines.fence.marker ++ (lines.tail ++ lines.ending ++ (lines.body ++
        (lines.inner.drop lines.body.length ++ rest)))) := by
    rw [← List.append_assoc lines.body, List.prefix_iff_eq_append.mp lines.body_prefix]
    simp [text, openingLine, Fence.render]
  have spans : ∀ edit ∈
      (⟨(lines.block before).body, (lines.block before).bodyText (contentLines content) fence⟩ ::
        ((lines.block before).closing.toList.flatMap ((lines.block before).runEdits fence) ++
          more) :
          List Edit),
      (lines.block before).opening.stop ≤ edit.span.start ∧ edit.span.start ≤ edit.span.stop := by
    intro edit member
    rcases List.mem_cons.mp member with rfl | member
    · exact ⟨openingStop, bodyProper⟩
    rcases List.mem_append.mp member with own | member
    · obtain ⟨closing, isClosing, own⟩ := List.mem_flatMap.mp own
      obtain ⟨inBehind, closingProper, -⟩ := closingBehind closing (Option.mem_toList.mp isClosing)
      rw [mem_runEdits own]
      omega
    · have behind := later edit member
      exact ⟨by omega, proper edit member⟩
  have opening := splice_runEdits (lines.block before) fence before.length lines.lead
    (lines.tail ++ lines.ending ++ (lines.body ++ (lines.inner.drop lines.body.length ++ rest)))
    lines.fence.length (fun edit member => (spans edit member).1)
    (fun edit member => (spans edit member).2)
  rw [doc, replacements, List.append_assoc]
  refine opening.trans ?_
  rw [show before.length + lines.lead.length + lines.fence.length =
      (lines.block before).opening.stop from rfl,
    splice_body valid before content rest fence later proper,
    show (lines.block before).fence = lines.fence from rfl, run]
  simp [refill, text, openingLine, ending, fence]

/-- Every replacement of a block reaches behind the start of its fence and stays inside
its lines. -/
theorem replacements_spans (valid : lines.Valid) (before content : Text) :
    ∀ edit ∈ (lines.block before).replacements content,
      (lines.block before).opening.start ≤ edit.span.start ∧ edit.span.start ≤ edit.span.stop ∧
        (lines.block before).opening.start < edit.span.stop ∧
        edit.span.stop ≤ (before ++ lines.text).length := by
  obtain ⟨-, openingProper, openingStop, bodyProper, bodyInside, closingBehind⟩ :=
    block_spans valid before
  intro edit member
  rcases List.mem_append.mp member with opening | member
  · rw [mem_runEdits opening]
    omega
  rcases List.mem_cons.mp member with rfl | closing
  · dsimp only
    omega
  · obtain ⟨span, isClosing, own⟩ := List.mem_flatMap.mp closing
    obtain ⟨inBehind, closingProper, inside⟩ := closingBehind span (Option.mem_toList.mp isClosing)
    rw [mem_runEdits own]
    omega

theorem runEdits_inOrder (block : FencedBlock) (fence : Fence) (run : Span)
    (proper : run.start ≤ run.stop) : Edit.InOrder (block.runEdits fence run) := by
  unfold runEdits
  split
  · exact ⟨by simp, List.Pairwise.nil⟩
  · exact ⟨by simpa using proper, List.pairwise_singleton _ _⟩

/-- The replacements of a block do not overlap. -/
theorem replacements_inOrder (valid : lines.Valid) (before content : Text) :
    Edit.InOrder ((lines.block before).replacements content) := by
  obtain ⟨-, openingProper, openingStop, bodyProper, -, closingBehind⟩ := block_spans valid before
  have spans := replacements_spans valid before content
  refine ⟨fun edit member => (spans edit member).2.1, ?_⟩
  let fence := lines.fence.widenFor (contentLines content)
  have closing : ∀ edit ∈
      (lines.block before).closing.toList.flatMap ((lines.block before).runEdits fence),
      (lines.block before).body.stop ≤ edit.span.start ∧ edit.span.start < edit.span.stop := by
    intro edit member
    obtain ⟨span, isClosing, own⟩ := List.mem_flatMap.mp member
    obtain ⟨inBehind, closingProper, -⟩ := closingBehind span (Option.mem_toList.mp isClosing)
    rw [mem_runEdits own]
    exact ⟨inBehind, closingProper⟩
  have differ : ∀ a b : Span, a.stop ≤ b.start → a.start < a.stop ∨ b.start < b.stop →
      a.stop ≤ b.start ∧ a ≠ b := by
    intro a b apart proper
    refine ⟨apart, ?_⟩
    rintro rfl
    omega
  unfold replacements
  refine List.pairwise_append.mpr ⟨(runEdits_inOrder _ _ _ (Nat.le_of_lt openingProper)).apart,
    List.pairwise_cons.mpr ⟨?_, ?_⟩, ?_⟩
  · intro edit member
    obtain ⟨behind, proper⟩ := closing edit member
    exact differ _ _ behind (Or.inr proper)
  · cases found : (lines.block before).closing with
    | none => exact List.Pairwise.nil
    | some span =>
      have proper := (closingBehind span found).2.1
      simpa using (runEdits_inOrder _ _ _ (Nat.le_of_lt proper)).apart
  · intro edit inOpening other member
    have span := mem_runEdits inOpening
    refine differ _ _ ?_ (Or.inl (by rw [span]; exact openingProper))
    rcases List.mem_cons.mp member with rfl | inClosing
    · rw [span]
      exact openingStop
    · have behind := (closing other inClosing).1
      rw [span]
      omega

theorem refill_valid (valid : lines.Valid) (content : Text) : (lines.refill content).Valid where
  lead_free := valid.lead_free
  marker := by
    rw [refill, Fence.widenFor_marker]
    exact valid.marker
  positive := Nat.lt_of_lt_of_le valid.positive (Fence.length_le_widenFor _ _)
  tail_free := valid.tail_free
  maximal := by
    rw [refill, Fence.widenFor_marker]
    exact valid.maximal
  unended := nofun

/-- The snippet is whole lines. -/
theorem endsLine_written (lines : BlockLines) (content : Text) :
    EndsLine (lines.written content) := by
  refine endsLine_flatten ?_
  intro piece member
  obtain ⟨line, -, rfl⟩ := List.mem_map.mp member
  unfold FencedBlock.bodyLine
  split
  · exact endsLine_concat _
  · exact endsLine_concat _

/-- The filled block ends in a newline where the block did. -/
theorem getLast?_refill (valid : lines.Valid) (content : Text)
    (last : lines.text.getLast? = some '\n') :
    ((lines.refill content).text ++ lines.newlineBehind).getLast? = some '\n' := by
  cases found : lines.closingRun? with
  | none => simp [newlineBehind, found, last, List.getLast?_append]
  | some closing =>
    obtain ⟨place, run⟩ := closing
    obtain ⟨front, rest, -, closed⟩ := exists_closedBy valid found
    have positive : 0 < run := Nat.lt_of_lt_of_le valid.positive closed.enough
    have restLast : rest.getLast? = some '\n' := by
      by_cases none : rest = []
      · -- the text would end in a marker
        have marker := (FencedBlock.isMarker_not_space valid.marker).2.2.2.1
        simp [text, closed.whole, none, List.getLast?_append, List.getLast?_replicate,
          Nat.ne_of_gt positive, marker] at last
      · rw [text, closed.whole] at last
        simpa only [← List.append_assoc, List.getLast?_append_of_ne_nil _ none] using last
    simp [newlineBehind, found, refill, text, closed.closingText_eq, List.getLast?_append,
      restLast]

theorem slice_body (valid : lines.Valid) (before after : Text) :
    (lines.block before).body.slice (before ++ lines.text ++ after) = lines.body := by
  obtain ⟨remainder, inner⟩ := lines.body_prefix
  have doc : before ++ lines.text ++ after = (before ++ lines.openingLine ++ lines.ending) ++
      (lines.body ++ (remainder ++ after)) := by
    simp [text, ← inner]
  rw [block_body valid, Span.slice, bodyStart_eq, doc, List.take_length_add_append,
    List.drop_left, List.take_left]

/-- What filling leaves ends in the snippet and a closing line, or in the snippet and a line
that a walk over the containers does not take for one. -/
theorem body_refill (valid : lines.Valid) (content : Text) :
    (lines.refill content).body = lines.written content ∧
        (lines.refill content).closingRun?.isSome ∨
      (lines.refill content).closingRun? = none ∧ lines.closingRun? = none := by
  let fence := lines.fence.widenFor (contentLines content)
  have marker : fence.marker = lines.fence.marker := Fence.widenFor_marker _ _
  have positive : 0 < fence.length := (refill_valid valid content).positive
  have closedBody : (lines.refill content).lastStart = (lines.written content).length →
      (lines.refill content).closingRun?.isSome →
        (lines.refill content).body = lines.written content := by
    intro start isClosed
    rw [body, if_pos isClosed, start]
    exact List.take_left
  cases found : lines.closingRun? with
  | none =>
    have noNewline := FencedBlock.isMarker_not_space valid.marker
    have last : (lines.refill content).LastLine (lines.written content)
        (Container.continuation lines.lead ++ fence.render) [] := by
      refine ⟨by simp [refill, closingText, found, fence], endsLine_written _ _, ?_,
        ⟨lines.fence.marker, ?_, ?_⟩, by simp⟩
      · simp only [Container.continuation, Fence.render, marker, List.mem_append, List.mem_map,
          List.mem_replicate, not_or, not_exists, not_and]
        refine ⟨?_, fun _ => Ne.symm noNewline.2.2.2.1⟩
        intro c _
        split
        · next kept =>
          rintro rfl
          simp at kept
        · decide
      · simp [Fence.render, marker, List.getLast?_append, List.getLast?_replicate,
          Nat.ne_of_gt positive]
      · simp [isLineEnd, noNewline]
    obtain ⟨-, start, -⟩ := last.closingRun?_eq
    cases again : (lines.refill content).closingRun? with
    | none => exact Or.inr ⟨rfl, rfl⟩
    | some _ => exact Or.inl ⟨closedBody start (by simp [again]), rfl⟩
  | some closing =>
    obtain ⟨place, run⟩ := closing
    obtain ⟨front, rest, rfl, closed⟩ := exists_closedBy valid found
    have enough : fence.length ≤ lines.runLength fence run := by
      unfold runLength
      split
      · next same =>
        rw [same]
        exact closed.enough
      · exact Nat.le_refl _
    obtain ⟨again, start⟩ := closed.again (lines.refill content) (lines.written content) rest
      (lines.runLength fence run) rfl marker (endsLine_written _ _)
      (Nat.lt_of_lt_of_le positive enough) enough (Or.inl rfl)
      (by simp [refill, closed.closingText_eq, fence])
    exact Or.inl ⟨closedBody start (by simp [again]), by simp [again]⟩

/-- Filling a filled block again with the same content replaces nothing. -/
theorem edits_refill (valid : lines.Valid) (content before after : Text) :
    ∀ edit ∈ ((lines.refill content).block before).edits content,
      edit.span.start ≤ edit.span.stop ∧
        edit.text = edit.span.slice (before ++ (lines.refill content).text ++ after) := by
  have refilled := refill_valid valid content
  have sameFence : ((lines.refill content).block before).fence.widenFor (contentLines content) =
      ((lines.refill content).block before).fence := Fence.widenFor_widenFor _ _
  have bodyText : ((lines.refill content).block before).bodyText (contentLines content)
      (lines.refill content).fence = _ :=
    (List.cons.inj (ending_bodyText refilled before content _)).2
  intro edit member
  unfold edits at member
  simp only [sameFence, ↓reduceIte, List.mem_singleton] at member
  subst member
  obtain ⟨-, -, -, bodyProper, -⟩ := block_spans refilled before
  refine ⟨bodyProper, ?_⟩
  dsimp only
  rw [slice_body refilled, show ((lines.refill content).block before).fence =
    (lines.refill content).fence from rfl, bodyText]
  rcases body_refill valid content with ⟨body, closed⟩ | ⟨unclosed, wasUnclosed⟩
  · rw [if_pos closed, List.append_nil, body]
    rfl
  · have inner : (lines.refill content).inner = lines.written content ++
        (Container.continuation lines.lead ++ (lines.refill content).fence.render) := by
      simp [refill, closingText, wasUnclosed]
    have noNewline : (lines.refill content).newlineBehind = [] := by
      have marker := (FencedBlock.isMarker_not_space refilled.marker).2.2.2.1
      have last : (lines.refill content).fence.render.getLast? =
          some (lines.refill content).fence.marker := by
        simp [Fence.render, List.getLast?_replicate, Nat.ne_of_gt refilled.positive]
      simp [newlineBehind, text, inner, List.getLast?_append, last, marker]
    have ownFence : (lines.refill content).closingText (lines.refill content).fence =
        Container.continuation lines.lead ++ (lines.refill content).fence.render := by
      rw [closingText, unclosed]
      rfl
    rw [unclosed, noNewline, BlockLines.body, unclosed, inner, ownFence, List.append_nil]
    rfl

end BlockLines
end Transclusion
