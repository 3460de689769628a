import Mathlib.Order.MinMax
import Transclusion.FencedBlock.ByteOffsets
import Transclusion.Proofs.BlockLines
import Transclusion.Proofs.ByteWalks

/-! Locating a block by byte offsets. Each step of the search is given the bytes of a text
that is written one part after the other, and arrives at the length of the parts before the
one it looks for; so every cut is between two parts, and the offsets found are those of the
positions that the search over the characters finds. -/
namespace Transclusion
open Text

namespace FencedBlock

private theorem no_newline {line : Text} (free : '\n' ∉ line) :
    ∀ c ∈ line, decide (c = '\n') = false := by
  intro c member
  apply decide_eq_false
  rintro rfl
  exact free member

theorem behindLastNewline_eq {before line : Text} (ends : EndsLine before) (free : '\n' ∉ line) :
    behindLastNewline (before ++ line) = before.byteLength := by
  unfold behindLastNewline
  rcases ends with rfl | last
  · rw [List.nil_append, findLast?_eq_none (no_newline free)]
    rfl
  · obtain ⟨front, rfl⟩ := List.getLast?_eq_some_iff.mp last
    have found := findLast?_append (p := (· = '\n')) (c := '\n') front rfl (no_newline free)
    rw [List.append_assoc, List.singleton_append, found, byteLength_append]
    rfl

/-- The line around an offset starts behind the newline before it and goes on to the next
one, or to the end. -/
theorem lineAround_eq {before line more rest : Text} (ends : EndsLine before)
    (free : '\n' ∉ line) (moreFree : '\n' ∉ more) (ended : rest = [] ∨ rest.head? = some '\n') :
    lineAround (before ++ line ++ (more ++ rest)) (before ++ line).byteLength =
      .ok ⟨before.byteLength, (before ++ line ++ more).byteLength⟩ := by
  unfold lineAround
  rw [upTo_append, onward_append]
  simp only [bind, Except.bind, behindLastNewline_eq ends free]
  rcases ended with rfl | newline
  · rw [List.append_nil, find?_eq_none (no_newline moreFree)]
    rfl
  · have found : find? (· = '\n') (more ++ rest) = some more.byteLength :=
      find?_append (no_newline moreFree) (by simp [newline])
    rw [found, byteLength_append (before ++ line) more]
    rfl

theorem byteLength_markers {c : Char} (marker : isMarker c = true) (n : Nat) :
    byteLength (List.replicate n c) = n := by
  have ascii : ∀ d ∈ List.replicate n c, d.toNat < 128 := by
    intro d member
    rw [List.eq_of_mem_replicate member]
    exact Fence.ascii_of_marker marker
  rw [byteLength_ascii ascii, List.length_replicate]

theorem distance_append (front back : Text) :
    distance front.byteLength (front ++ back).byteLength = .ok back.byteLength := by
  rw [distance, byteLength_append, if_neg (by omega), Nat.add_sub_cancel_left]

/-- Behind text without markers the fence is found, the whole run of it. -/
theorem fenceFrom?_eq (near : Text) {gap tail : Text} {fence : Fence}
    (gapFree : ∀ c ∈ gap, isMarker c = false) (marker : isMarker fence.marker = true)
    (positive : 0 < fence.length) (maximal : tail.head? ≠ some fence.marker) :
    fenceFrom? (near ++ (gap ++ (fence.render ++ tail))) near.byteLength =
      .ok (some ((near ++ gap).byteLength, fence)) := by
  obtain ⟨n, length⟩ := Nat.exists_eq_add_of_lt positive
  have render : fence.render ++ tail = fence.marker :: (List.replicate n fence.marker ++ tail) := by
    rw [Fence.render, length]
    simp [List.replicate_succ]
  obtain ⟨byte, more, bytesEq, begins, -⟩ :=
    exists_bytes_cons fence.marker (List.replicate n fence.marker ++ tail)
  rw [← render] at bytesEq
  have ascii := Fence.ascii_of_marker marker
  have isByte : byte = fence.marker.toUInt8 := by
    have told := begins (tells_char ascii)
    simpa using told
  have found : find? isMarker (gap ++ (fence.render ++ tail)) = some gap.byteLength :=
    find?_append gapFree (by simp [render, marker])
  have offset : near.byteLength + gap.byteLength = (near ++ gap).byteLength :=
    (byteLength_append near gap).symm
  have cut := onward_append (near ++ gap) (fence.render ++ tail)
  have behind := behind_append (near ++ gap) (fence.render ++ tail)
  rw [List.append_assoc] at cut behind
  have first : (bytes (near ++ (gap ++ (fence.render ++ tail))))[(near ++ gap).byteLength]? =
      some byte := by
    rw [← List.head?_drop, behind.rest, bytesEq]
    rfl
  have run : ((bytes (fence.render ++ tail)).takeWhile (· == byte)).length = fence.length := by
    rw [isByte, (tells_char ascii).length_takeWhile]
    apply countWhile_replicate (by simp)
    cases tail with
    | nil => rfl
    | cons c tail => simpa using maximal
  have back : Char.ofUInt8 byte = fence.marker := by
    rw [isByte]
    rcases isMarker_iff.mp marker with same | same <;> rw [same] <;> rfl
  unfold fenceFrom? byteAt
  rw [onward_append]
  simp only [bind, Except.bind, found, offset, first, cut, run, back]
  rfl

end FencedBlock

namespace BlockLines
open FencedBlock

variable {lines : BlockLines} {before after : Text} {range : Span}

/-- Over the front of a closing line and its run every character is one byte. -/
private theorem closing_bytes {fence : Fence} {lead : Text} (marker : isMarker fence.marker = true)
    (marks : ∀ c ∈ lead, c = ' ' ∨ c = '>') (front : Text) (run : Nat) :
    (front ++ lead).byteLength = front.byteLength + lead.length ∧
      (front ++ (lead ++ List.replicate run fence.marker)).byteLength =
        front.byteLength + lead.length + run := by
  have leadLength := byteLength_ascii (Fence.ascii_of_marks marks)
  constructor
  · rw [byteLength_append, leadLength]
  · rw [byteLength_append, byteLength_append, leadLength, byteLength_markers marker, Nat.add_assoc]

/-- A closing fence stands behind the front of its line, which is spaces and quote markers. -/
theorem block_closed {source front lead behind : Text} {run : Nat}
    (found : lines.closingRun? = some (lead.length, run))
    (split : source = front ++ (lead ++ (List.replicate run lines.fence.marker ++ behind)))
    (start : front.length = lines.bodyStart before + lines.lastStart) :
    (lines.block before).body.inBytes source =
        ⟨source.byteOffset (lines.bodyStart before), front.byteLength⟩ ∧
      (lines.block before).closing.map (Span.inBytes source) = some ⟨(front ++ lead).byteLength,
        (front ++ (lead ++ List.replicate run lines.fence.marker)).byteLength⟩ := by
  have bodyStop : source.byteOffset front.length = front.byteLength := by
    rw [split]
    exact byteOffset_append front _
  have runStart : source.byteOffset (front.length + lead.length) = (front ++ lead).byteLength := by
    rw [split, ← List.append_assoc, ← List.length_append]
    exact byteOffset_append (front ++ lead) _
  have runStop : source.byteOffset (front.length + lead.length + run) =
      (front ++ (lead ++ List.replicate run lines.fence.marker)).byteLength := by
    have stop := byteOffset_append (front ++ (lead ++ List.replicate run lines.fence.marker)) behind
    rw [List.append_assoc front, List.append_assoc lead, ← split] at stop
    simpa [Nat.add_assoc] using stop
  constructor
  · rw [Span.inBytes, ← bodyStop, start]
    simp [block, found]
  · rw [← runStop, ← runStart, start]
    simp [block, found, Span.inBytes]

section Parts
variable {source : Text} (whole : source = before ++ lines.text ++ after)
include whole

private theorem bodyStart_le_length : lines.bodyStart before ≤ source.length := by
  simp only [whole, List.length_append, bodyStart, length_text]
  omega

theorem byteOffset_bodyStart : source.byteOffset (lines.bodyStart before) =
    (before ++ lines.openingLine ++ lines.ending).byteLength := by
  have shape : source = (before ++ lines.openingLine ++ lines.ending) ++ (lines.inner ++ after) := by
    rw [whole, text]
    simp only [List.append_assoc]
  rw [shape, bodyStart_eq]
  exact byteOffset_append _ _

/-- Without a closing fence the body reaches the end of the block. -/
theorem block_unclosed (none : lines.closingRun? = none) :
    (lines.block before).body.inBytes source =
        ⟨source.byteOffset (lines.bodyStart before), (before ++ lines.text).byteLength⟩ ∧
      (lines.block before).closing = Option.none := by
  have reaches : lines.bodyStart before + lines.inner.length = (before ++ lines.text).length := by
    rw [List.length_append, length_text, bodyStart]
    omega
  have stop := byteOffset_append (before ++ lines.text) after
  rw [← whole, ← reaches] at stop
  refine ⟨?_, by simp [block, none]⟩
  rw [Span.inBytes, ← stop]
  simp [block, none]

/-- The body ends and the closing fence stands where the lines have them. -/
theorem closeFrom_eq (valid : lines.Valid) (startsLine : EndsLine before) :
    closeFrom source lines.fence lines.lead (source.byteOffset (lines.bodyStart before))
        (before ++ lines.text).byteLength =
      .ok ((lines.block before).body.inBytes source,
        (lines.block before).closing.map (Span.inBytes source)) := by
  obtain ⟨search, startSame⟩ := closing_search valid startsLine
  obtain ⟨dropped, split, -⟩ := exists_dropEndWhile isLineEnd (before ++ lines.text)
  obtain ⟨front, line, content, frontEnds, free⟩ :=
    exists_line_at_end (dropEndWhile isLineEnd (before ++ lines.text))
  simp only [content, lineStart_length frontEnds free, List.drop_left] at search startSame
  have shape : source = front ++ (line ++ (dropped ++ after)) := by
    rw [whole, split, content]
    simp only [List.append_assoc]
  have wholeCut : source.upTo (before ++ lines.text).byteLength = .ok (before ++ lines.text) := by
    rw [whole]
    exact upTo_append (before ++ lines.text) after
  have contentCut : source.upTo (front ++ line).byteLength = .ok (front ++ line) := by
    rw [shape, ← List.append_assoc]
    exact upTo_append (front ++ line) (dropped ++ after)
  have lineCut : source.between front.byteLength (front ++ line).byteLength = .ok line := by
    rw [shape]
    exact between_append front line (dropped ++ after)
  have order : source.byteOffset (lines.bodyStart before) ≤ front.byteLength ↔
      lines.bodyStart before ≤ front.length := by
    have lastLine : source.byteOffset front.length = front.byteLength := by
      rw [shape]
      exact byteOffset_append front _
    rw [← lastLine]
    apply byteOffset_le_iff source (bodyStart_le_length whole)
    rw [shape, List.length_append]
    exact Nat.le_add_right _ _
  have sameEnds : (fun c : Char => decide (c = '\n') || decide (c = '\r')) = isLineEnd := rfl
  have containers := Container.containersFrom_eq (behind_zero lines.lead)
  have closing := Fence.closingFrom?_eq valid.marker (Container.ofLead lines.lead) line
  unfold closeFrom
  simp only [bind, Except.bind, wholeCut, sameEnds, content, contentCut,
    behindLastNewline_eq frontEnds free, containers, order, lineCut, closing]
  by_cases reached : lines.bodyStart before ≤ front.length
  · simp only [reached, ↓reduceIte] at search ⊢
    rw [search]
    cases found : lines.closingRun? with
    | none =>
      obtain ⟨body, closing⟩ := block_unclosed whole found
      rw [body, closing]
      rfl
    | some closing =>
      obtain ⟨place, run⟩ := closing
      have start := startSame (by rw [found]; rfl)
      obtain ⟨lead, blanks, rfl, rfl, -, marks, -⟩ :=
        Fence.exists_closing_line valid.marker valid.positive (search.trans found)
      simp only [List.append_assoc] at shape
      obtain ⟨body, closing⟩ := block_closed found shape start
      obtain ⟨runStart, runStop⟩ := closing_bytes valid.marker marks front run
      rw [body, closing, runStart, runStop]
      rfl
  · simp only [reached, ↓reduceIte] at search ⊢
    obtain ⟨body, closing⟩ := block_unclosed whole search.symm
    rw [body, closing]
    rfl

end Parts

/-- The body starts inside the document, and the block ends with its lines. -/
theorem Placed.stop_eq {source : Text} (whole : source = before ++ lines.text ++ after)
    (placed : lines.Placed before after range) :
    source.byteOffset (lines.bodyStart before) ≤ source.byteLength ∧
      min (max (source.byteOffset range.stop) (source.byteOffset (lines.bodyStart before)))
        source.byteLength = (before ++ lines.text).byteLength := by
  have mono : Monotone (byteOffset source) := fun _ _ order => byteOffset_mono source order
  have length : source.byteLength = source.byteOffset source.length := by
    rw [byteOffset, List.take_length]
  have inside := bodyStart_le_length whole
  have stop := byteOffset_append (before ++ lines.text) after
  rw [← whole, ← placed.reaches, ← whole, mono.map_min, mono.map_max, ← length] at stop
  rw [stop]
  exact ⟨length ▸ mono inside, rfl⟩

/-- The range starts in the lead, with no marker between it and the fence. -/
theorem Placed.exists_near (placed : lines.Placed before after range) :
    ∃ near gap, lines.lead = near ++ gap ∧ range.start = (before ++ near).length ∧
      ∀ c ∈ gap, isMarker c = false := by
  obtain ⟨offset, inLead, start, first⟩ := placed.starts
  refine ⟨lines.lead.take offset, lines.lead.drop offset, (List.take_append_drop _ _).symm, ?_, first⟩
  rw [List.length_append, List.length_take, Nat.min_eq_left inLead, start]

/-- Only a newline or the end of the document can stand behind the opening line. -/
theorem ends_opening (valid : lines.Valid) (last : lines.newline = false → after = []) :
    lines.ending ++ (lines.inner ++ after) = [] ∨
      (lines.ending ++ (lines.inner ++ after)).head? = some '\n' := by
  cases ended : lines.newline with
  | false => exact Or.inl (by simp [ending, ended, valid.unended ended, last ended])
  | true => exact Or.inr (by simp [ending, ended])

section Opening
variable {source : Text} (whole : source = before ++ lines.text ++ after)
include whole

theorem source_eq :
    source = before ++ (lines.openingLine ++ (lines.ending ++ (lines.inner ++ after))) := by
  rw [whole, text]
  simp only [List.append_assoc]

/-- The body starts behind the newline that the opening line has, if it has one. -/
private theorem bodyStart_bytes (placed : lines.Placed before after range) :
    decide ((before ++ lines.openingLine).byteLength < source.byteLength) = lines.newline ∧
      (if lines.newline then (before ++ lines.openingLine).byteLength + 1
        else (before ++ lines.openingLine).byteLength) =
      source.byteOffset (lines.bodyStart before) := by
  rw [byteOffset_bodyStart whole, source_eq whole, ← List.append_assoc]
  cases ended : lines.newline with
  | false =>
    have behind : lines.ending ++ (lines.inner ++ after) = [] := by
      simp [ending, ended, placed.valid.unended ended, placed.last ended]
    have noEnding : lines.ending = [] := by simp [ending, ended]
    rw [behind, noEnding]
    simp
  | true =>
    have newline : lines.ending = ['\n'] := by simp [ending, ended]
    have one : byteLength ['\n'] = 1 := rfl
    rw [newline, byteLength_append _ ['\n'], byteLength_append _ (['\n'] ++ _),
      byteLength_append ['\n'], one]
    refine ⟨decide_eq_true (by omega), rfl⟩

/-- The opening line is found around the start of the range. -/
theorem Placed.line_found (placed : lines.Placed before after range) {near gap : Text}
    (lead : lines.lead = near ++ gap) (start : range.start = (before ++ near).length) :
    source.byteOffset range.start = (before ++ near).byteLength ∧
      lineAround source (before ++ near).byteLength =
        .ok ⟨before.byteLength, (before ++ lines.openingLine).byteLength⟩ := by
  have free := placed.valid.openingLine_free
  have line : lines.openingLine = near ++ (gap ++ (lines.fence.render ++ lines.tail)) := by
    rw [openingLine, lead]
    simp only [List.append_assoc]
  rw [line, List.mem_append, not_or] at free
  have shape := source_eq whole
  rw [line, List.append_assoc, ← List.append_assoc] at shape
  constructor
  · rw [start, shape]
    exact byteOffset_append (before ++ near) _
  · rw [shape, line, ← List.append_assoc before]
    exact lineAround_eq placed.startsLine free.1 free.2 (ends_opening placed.valid placed.last)

/-- The opening fence stands behind the lead, at as many bytes as it has markers. -/
theorem opening_bytes (valid : lines.Valid) :
    (lines.lead ++ lines.fence.render).byteLength = lines.lead.byteLength + lines.fence.length ∧
      (lines.block before).opening.inBytes source =
        ⟨(before ++ lines.lead).byteLength,
          (before ++ lines.lead ++ lines.fence.render).byteLength⟩ := by
  let behind := lines.tail ++ (lines.ending ++ (lines.inner ++ after))
  have shape : source = before ++ lines.lead ++ lines.fence.render ++ behind := by
    rw [source_eq whole, openingLine]
    simp only [behind, List.append_assoc]
  have start : source.byteOffset (before ++ lines.lead).length =
      (before ++ lines.lead).byteLength := by
    rw [shape, List.append_assoc (before ++ lines.lead)]
    exact byteOffset_append _ _
  have stop : source.byteOffset (before ++ lines.lead ++ lines.fence.render).length =
      (before ++ lines.lead ++ lines.fence.render).byteLength := by
    rw [shape]
    exact byteOffset_append _ _
  constructor
  · rw [byteLength_append]
    exact congrArg _ (byteLength_markers valid.marker lines.fence.length)
  · rw [← start, ← stop]
    simp [block, Span.inBytes, Fence.render, Nat.add_assoc]

/-- The bytes give the block that the lines do. -/
theorem Placed.locateBytes_eq (placed : lines.Placed before after range) :
    locateBytes source (range.inBytes source) =
      .ok (some ((lines.block before).inBytes source)) := by
  have clamped : clamp (source.byteOffset range.stop) (source.byteOffset (lines.bodyStart before))
      source.byteLength = .ok (before ++ lines.text).byteLength := by
    obtain ⟨inside, stop⟩ := placed.stop_eq whole
    rw [clamp, if_neg (Nat.not_lt.mpr inside), stop]
  have valid := placed.valid
  have closed := closeFrom_eq whole valid placed.startsLine
  obtain ⟨hasNewline, bodyAt⟩ := bodyStart_bytes whole placed
  obtain ⟨near, gap, lead, start, gapFree⟩ := placed.exists_near
  obtain ⟨startAt, around⟩ := placed.line_found whole lead start
  obtain ⟨fenceStop, opening⟩ := opening_bytes whole valid
  have openingCut : source.between before.byteLength (before ++ lines.openingLine).byteLength =
      .ok lines.openingLine := by
    rw [source_eq whole]
    exact between_append before lines.openingLine _
  have offset := distance_append before near
  have fenced : fenceFrom? lines.openingLine near.byteLength =
      .ok (some (lines.lead.byteLength, lines.fence)) := by
    have found := fenceFrom?_eq near gapFree valid.marker valid.positive valid.maximal
    rw [openingLine, lead]
    simpa only [List.append_assoc] using found
  have leadCut : lines.openingLine.upTo lines.lead.byteLength = .ok lines.lead := by
    rw [openingLine, List.append_assoc]
    exact upTo_append lines.lead _
  have infoCut : lines.openingLine.onward (lines.lead.byteLength + lines.fence.length) =
      .ok lines.tail := by
    rw [← fenceStop]
    exact onward_append (lines.lead ++ lines.fence.render) lines.tail
  have beforeCut : source.upTo before.byteLength = .ok before := by
    rw [source_eq whole]
    exact upTo_append before _
  have wholeCut : source.upTo (before ++ lines.text).byteLength = .ok (before ++ lines.text) := by
    rw [whole]
    exact upTo_append (before ++ lines.text) after
  unfold locateBytes
  simp only [bind, Except.bind, Span.inBytes, startAt, around, openingCut, offset, fenced,
    hasNewline, bodyAt, clamped, leadCut, closed, beforeCut, infoCut, wholeCut]
  rw [List.append_assoc, byteLength_append before, byteLength_append before, fenceStop,
    ← Nat.add_assoc] at opening
  rw [inBytes, opening]
  rfl

end Opening

end BlockLines

namespace FencedBlock

/-- Nothing is found from a place that no marker follows on its line. -/
private theorem locateBytes_plain {before line rest : Text} {range : Span} (ends : EndsLine before)
    (free : '\n' ∉ line) (start : range.start = (before ++ line).length)
    (plain : ∀ c ∈ rest.takeWhile (· ≠ '\n'), isMarker c = false) :
    locateBytes (before ++ line ++ rest) (range.inBytes (before ++ line ++ rest)) = .ok none := by
  obtain ⟨behind, split, moreFree, ended⟩ := exists_line_ahead rest
  generalize rest.takeWhile (· ≠ '\n') = more at split moreFree plain
  have around := lineAround_eq ends free moreFree ended
  rw [← split] at around
  have startAt : (before ++ line ++ rest).byteOffset range.start = (before ++ line).byteLength := by
    rw [start]
    exact byteOffset_append (before ++ line) rest
  have openingCut : (before ++ line ++ rest).between before.byteLength
      (before ++ line ++ more).byteLength = .ok (line ++ more) := by
    have cut := between_append before (line ++ more) behind
    rwa [List.append_assoc line, ← split, ← List.append_assoc, ← List.append_assoc] at cut
  have offset := distance_append before line
  have unfenced : fenceFrom? (line ++ more) line.byteLength = .ok none := by
    unfold fenceFrom?
    rw [onward_append]
    simp only [bind, Except.bind, find?_eq_none plain]
    rfl
  unfold locateBytes
  simp only [bind, Except.bind, Span.inBytes, startAt, around, openingCut, offset, unfenced]
  rfl

/-- The search over the bytes finds what the search over the characters does, and it cuts
nothing where there is no cut. -/
theorem locateBytes_eq {source : Text} {range : Span} (inside : range.start ≤ source.length) :
    locateBytes source (range.inBytes source) =
      .ok ((locate? source range).map (inBytes source)) := by
  by_cases opening : BlockLines.OnOpeningLine source range.start
  · obtain ⟨before, lines, after, whole, placed⟩ := BlockLines.exists_placed opening
    rw [placed.locateBytes_eq whole, whole, placed.locate?_eq]
    rfl
  · rw [BlockLines.locate?_eq_none_iff.mpr opening]
    obtain ⟨before, line, rest, rfl, ends, free, length⟩ := exists_line inside
    rw [← List.length_append] at length
    apply locateBytes_plain ends free length.symm
    intro c member
    rw [BlockLines.OnOpeningLine, ← length, List.drop_left] at opening
    by_contra marker
    exact opening (List.any_eq_true.mpr ⟨c, member, by simpa using marker⟩)

end FencedBlock
end Transclusion
