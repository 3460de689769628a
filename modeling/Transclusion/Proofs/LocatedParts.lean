import Transclusion.Proofs.LocatingBytes

/-! What a located block promises the edits made to it: every offset it names is a cut of the
document, the cuts are in order, and the text between them is what it is taken for. -/
namespace Transclusion
open Text

namespace FencedBlock

/-- Where a block ends: with its range, but not before its body starts and not behind the
document. -/
def stopOf (source : Text) (range : Span) (block : FencedBlock) : Nat :=
  min (max range.stop block.body.start) source.byteLength

/-- A run of markers closes a block that stops at `stop`: it is long enough, stands on the
line behind the body, and has only spaces and quote markers before it there and only white
space behind it. -/
structure ClosesAt (source : Text) (block : FencedBlock) (stop : Nat) (run : Span) : Prop where
  line : ∃ front, source.upTo block.body.stop = .ok front ∧ EndsLine front
  lead : ∃ front, source.between block.body.stop run.start = .ok front ∧
    ∀ c ∈ front, c = ' ' ∨ c = '>'
  markers : ∃ n, block.fence.length ≤ n ∧
    source.between run.start run.stop = .ok (List.replicate n block.fence.marker)
  blank : ∃ rest, source.between run.stop stop = .ok rest ∧ ∀ c ∈ rest, isWhiteSpace c = true

/-- The parts of a block that was located for a range, all of them given by byte offsets. -/
structure WellFormed (source : Text) (range : Span) (block : FencedBlock) : Prop where
  marker : isMarker block.fence.marker = true
  positive : 1 ≤ block.fence.length
  /-- The opening fence holds its markers and nothing else. -/
  markers : source.between block.opening.start block.opening.stop = .ok block.fence.render
  /-- No further marker follows it. -/
  maximal : ∃ rest, source.onward block.opening.stop = .ok rest ∧
    rest.head? ≠ some block.fence.marker
  /-- It is the first run of markers behind the start of the range. -/
  first : ∃ gap, source.between range.start block.opening.start = .ok gap ∧
    ∀ c ∈ gap, isMarker c = false
  /-- It stands on the line on which the range starts, which is the line of the block. -/
  line : ∃ before lead, source.upTo block.opening.start = .ok (before ++ lead) ∧
    EndsLine before ∧ '\n' ∉ lead ∧ before.byteLength ≤ range.start ∧
    block.line = before.count '\n' + 1
  /-- The body starts behind that line, at the end of the document if nothing ends it. -/
  body : ∃ info, '\n' ∉ info ∧ source.between block.opening.stop block.body.start =
      .ok (info ++ if block.openingHasNewline then ['\n'] else []) ∧
    (block.openingHasNewline = false → block.body.start = source.byteLength)
  ordered : block.opening.stop ≤ block.body.start ∧ block.body.start ≤ block.body.stop ∧
    block.body.stop ≤ stopOf source range block
  closed : ∀ run, block.closing = some run →
    ClosesAt source block (stopOf source range block) run
  unclosed : block.closing = none → block.body.stop = stopOf source range block

end FencedBlock

namespace BlockLines
open FencedBlock

variable {lines : BlockLines} {before after source : Text} {range : Span}

private theorem isWhiteSpace_of_isLineEnd {c : Char} (ends : isLineEnd c = true) :
    isWhiteSpace c = true := by
  simp only [isLineEnd, Bool.or_eq_true, decide_eq_true_eq] at ends
  rcases ends with rfl | rfl <;> decide

/-- A closing line taken apart, behind all that stands before it in the document. -/
theorem exists_closing_parts (valid : lines.Valid) (before : Text) {place run : Nat}
    (found : lines.closingRun? = some (place, run)) :
    ∃ front lead blanks, EndsLine front ∧ lead.length = place ∧ lines.fence.length ≤ run ∧
      (∀ c ∈ lead, c = ' ' ∨ c = '>') ∧ (∀ c ∈ blanks, isWhiteSpace c = true) ∧
      front.length = lines.bodyStart before + lines.lastStart ∧
      before ++ lines.text =
        front ++ (lead ++ (List.replicate run lines.fence.marker ++ blanks)) := by
  have nonempty := valid.content_ne_nil found
  have newline : lines.ending = ['\n'] := by
    rw [ending, valid.newline_of_content nonempty]
    rfl
  obtain ⟨front, line, ends, last⟩ := exists_lastLine nonempty
  obtain ⟨content, start, search⟩ := last.closingRun?_eq
  rw [search] at found
  obtain ⟨lead, blanks, rfl, place, enough, marks, blank, -⟩ :=
    Fence.exists_closing_line valid.marker valid.positive found
  refine ⟨before ++ lines.openingLine ++ lines.ending ++ front, lead, blanks ++ ends, ?_, place,
    enough, marks, ?_, ?_, ?_⟩
  · rw [newline]
    exact (endsLine_concat (before ++ lines.openingLine)).append last.front_ends
  · intro c member
    rcases List.mem_append.mp member with inBlanks | inEnds
    · exact blank c inBlanks
    · exact isWhiteSpace_of_isLineEnd (last.ends_all c inEnds)
  · rw [List.length_append, ← bodyStart_eq, start]
  · rw [text, last.whole]
    simp only [List.append_assoc]

/-- No marker of the fence follows it, on its line or behind that. -/
private theorem head?_behind_fence (valid : lines.Valid)
    (last : lines.newline = false → after = []) :
    (lines.tail ++ lines.ending ++ (lines.inner ++ after)).head? ≠ some lines.fence.marker := by
  rw [List.append_assoc]
  cases tail : lines.tail with
  | nil =>
    rcases ends_opening valid last with empty | newline
    · simp [empty]
    · rw [List.nil_append, newline]
      intro same
      exact (isMarker_not_space valid.marker).2.2.2.1 (Option.some.inj same).symm
  | cons c tail' =>
    have maximal := valid.maximal
    rwa [tail] at maximal

section Parts
variable (whole : source = before ++ lines.text ++ after) (placed : lines.Placed before after range)
include whole placed

theorem Placed.stopOf_eq : stopOf source (range.inBytes source)
    ((lines.block before).inBytes source) = (before ++ lines.text).byteLength :=
  (placed.stop_eq whole).2

/-- A closing fence is where the block says, and the body ends where its line starts. -/
theorem Placed.closesAt {closing : Nat × Nat} (found : lines.closingRun? = some closing) :
    ∃ run, (lines.block before).closing.map (Span.inBytes source) = some run ∧
      ClosesAt source ((lines.block before).inBytes source) (before ++ lines.text).byteLength run ∧
      source.byteOffset (lines.bodyStart before) ≤
        ((lines.block before).inBytes source).body.stop ∧
      ((lines.block before).inBytes source).body.stop ≤ (before ++ lines.text).byteLength := by
  obtain ⟨place, run⟩ := closing
  obtain ⟨front, lead, blanks, ends, rfl, enough, marks, blank, start, split⟩ :=
    exists_closing_parts placed.valid before found
  let markers := List.replicate run lines.fence.marker
  have shape : source = front ++ (lead ++ (markers ++ (blanks ++ after))) := by
    rw [whole, split]
    simp only [markers, List.append_assoc]
  obtain ⟨body, closing⟩ := block_closed found shape start
  have bodyStop : ((lines.block before).inBytes source).body.stop = front.byteLength :=
    congrArg Span.stop body
  have bodyStart : source.byteOffset (lines.bodyStart before) ≤ front.byteLength := by
    have line : source.byteOffset front.length = front.byteLength := by
      rw [shape]
      exact byteOffset_append front _
    rw [← line, start]
    exact byteOffset_mono source (Nat.le_add_right _ _)
  have leadCut : source.between front.byteLength (front ++ lead).byteLength = .ok lead := by
    rw [shape]
    exact between_append front lead _
  have runCut : source.between (front ++ lead).byteLength (front ++ (lead ++ markers)).byteLength =
      .ok markers := by
    rw [shape, ← List.append_assoc front, ← List.append_assoc front]
    exact between_append (front ++ lead) markers _
  have blankCut : source.between (front ++ (lead ++ markers)).byteLength
      (before ++ lines.text).byteLength = .ok blanks := by
    have cut := between_append (front ++ (lead ++ markers)) blanks after
    have upTo : front ++ (lead ++ markers) ++ blanks = before ++ lines.text := by
      rw [split]
      simp only [markers, List.append_assoc]
    rwa [← List.append_assoc _ blanks, upTo, ← whole] at cut
  have frontCut : source.upTo front.byteLength = .ok front := by
    rw [shape]
    exact upTo_append front _
  refine ⟨_, closing, ⟨?_, ?_, ?_, ?_⟩, ?_, ?_⟩
  · exact ⟨front, by rw [bodyStop, frontCut], ends⟩
  · exact ⟨lead, by rw [bodyStop, leadCut], marks⟩
  · exact ⟨run, enough, runCut⟩
  · exact ⟨blanks, blankCut, blank⟩
  · rw [bodyStop]
    exact bodyStart
  · rw [bodyStop, split, byteLength_append]
    exact Nat.le_add_right _ _

/-- The body reaches from its start to the closing line, or as far as the block does. -/
private theorem Placed.body_ordered :
    source.byteOffset (lines.bodyStart before) ≤ ((lines.block before).inBytes source).body.stop ∧
      ((lines.block before).inBytes source).body.stop ≤ (before ++ lines.text).byteLength := by
  cases found : lines.closingRun? with
  | none =>
    obtain ⟨inside, stop⟩ := placed.stop_eq whole
    have bodyStop : ((lines.block before).inBytes source).body.stop =
        (before ++ lines.text).byteLength := congrArg Span.stop (block_unclosed whole found).1
    omega
  | some closing =>
    obtain ⟨run, -, -, ordered⟩ := placed.closesAt whole found
    exact ordered

/-- What is located in the lines keeps all that is promised. -/
theorem Placed.wellFormed : WellFormed source (range.inBytes source)
    ((lines.block before).inBytes source) := by
  have valid := placed.valid
  obtain ⟨-, opening⟩ := opening_bytes whole valid
  have openingStart : ((lines.block before).inBytes source).opening.start =
      (before ++ lines.lead).byteLength := congrArg Span.start opening
  have openingStop : ((lines.block before).inBytes source).opening.stop =
      (before ++ lines.lead ++ lines.fence.render).byteLength := congrArg Span.stop opening
  have bodyStart : ((lines.block before).inBytes source).body.start =
      (before ++ lines.lead ++ lines.fence.render ++ (lines.tail ++ lines.ending)).byteLength := by
    have start : ((lines.block before).inBytes source).body.start =
        (before ++ lines.openingLine ++ lines.ending).byteLength := byteOffset_bodyStart whole
    rw [start, openingLine]
    simp only [List.append_assoc]
  have shape : source = before ++ lines.lead ++
      (lines.fence.render ++ (lines.tail ++ lines.ending ++ (lines.inner ++ after))) := by
    rw [source_eq whole, openingLine]
    simp only [List.append_assoc]
  have stop := placed.stopOf_eq whole
  have ordered := placed.body_ordered whole
  obtain ⟨near, gap, lead, start, gapFree⟩ := placed.exists_near
  have rangeStart : (range.inBytes source).start = (before ++ near).byteLength :=
    (placed.line_found whole lead start).1
  constructor
  case marker => exact valid.marker
  case positive => exact valid.positive
  case markers =>
    rw [openingStart, openingStop, shape]
    exact between_append (before ++ lines.lead) lines.fence.render _
  case maximal =>
    refine ⟨lines.tail ++ lines.ending ++ (lines.inner ++ after), ?_, ?_⟩
    · rw [openingStop, shape, ← List.append_assoc (before ++ lines.lead)]
      exact onward_append (before ++ lines.lead ++ lines.fence.render) _
    · exact head?_behind_fence valid placed.last
  case first =>
    refine ⟨gap, ?_, gapFree⟩
    rw [rangeStart, openingStart, shape, lead, ← List.append_assoc before, List.append_assoc _ gap]
    exact between_append (before ++ near) gap _
  case line =>
    refine ⟨before, lines.lead, ?_, placed.startsLine, valid.lead_free, ?_, rfl⟩
    · rw [openingStart, shape]
      exact upTo_append (before ++ lines.lead) _
    · rw [rangeStart, byteLength_append]
      exact Nat.le_add_right _ _
  case body =>
    refine ⟨lines.tail, valid.tail_free, ?_, ?_⟩
    · rw [openingStop, bodyStart, shape, ← List.append_assoc (before ++ lines.lead)]
      exact between_append (before ++ lines.lead ++ lines.fence.render)
        (lines.tail ++ lines.ending) _
    · intro unended
      have noInner := valid.unended unended
      have noAfter := placed.last unended
      rw [bodyStart, shape, noInner, noAfter]
      simp only [List.append_assoc, List.append_nil]
  case ordered =>
    rw [stop]
    refine ⟨?_, ordered⟩
    rw [openingStop, bodyStart, byteLength_append (before ++ lines.lead ++ lines.fence.render)]
    exact Nat.le_add_right _ _
  case closed =>
    intro run closing
    rw [stop]
    cases found : lines.closingRun? with
    | none =>
      have none := (block_unclosed whole found).2
      rw [inBytes, none] at closing
      cases closing
    | some closingRun =>
      obtain ⟨span, there, closes, -⟩ := placed.closesAt whole found
      obtain rfl : span = run := Option.some.inj (there.symm.trans closing)
      exact closes
  case unclosed =>
    intro none
    rw [stop]
    cases found : lines.closingRun? with
    | none => exact congrArg Span.stop (block_unclosed whole found).1
    | some closingRun =>
      obtain ⟨span, there, -⟩ := placed.closesAt whole found
      cases none.symm.trans there

end Parts

end BlockLines

namespace FencedBlock

/-- Wherever a range starts and stops between two characters of a document, the search over
its bytes cuts nothing but what is there and finds what the search over the characters does.
It finds nothing only where no marker follows on the line, and what it finds is well-formed. -/
theorem locateBytes_wellFormed {source : Text} {range : Span} {first last : Nat}
    (start : source.cutAt range.start = .ok first) (stop : source.cutAt range.stop = .ok last) :
    locateBytes source range = .ok ((locate? source ⟨first, last⟩).map (inBytes source)) ∧
      (locateBytes source range = .ok none ↔ ¬ BlockLines.OnOpeningLine source first) ∧
      ∀ block, locateBytes source range = .ok (some block) → WellFormed source range block := by
  obtain ⟨inside, startAt⟩ := byteOffset_of_cutAt start
  obtain ⟨-, stopAt⟩ := byteOffset_of_cutAt stop
  have positions : range = Span.inBytes source ⟨first, last⟩ := by
    rw [Span.inBytes, startAt, stopAt]
  have same : locateBytes source (Span.inBytes source ⟨first, last⟩) =
      .ok ((locate? source ⟨first, last⟩).map (inBytes source)) := locateBytes_eq inside
  rw [← positions] at same
  refine ⟨same, ?_, ?_⟩
  · have plain : locate? source ⟨first, last⟩ = none ↔ ¬ BlockLines.OnOpeningLine source first :=
      BlockLines.locate?_eq_none_iff
    rw [same, Except.ok.injEq, Option.map_eq_none_iff, plain]
  intro block found
  obtain ⟨located, there, rfl⟩ :=
    Option.map_eq_some_iff.mp (Except.ok.inj (same.symm.trans found))
  obtain ⟨before, lines, after, whole, placed, rfl⟩ := BlockLines.exists_of_locate? there
  rw [positions]
  exact placed.wellFormed whole

/-- A block in a quote, behind a character of two bytes and with another such blank behind its
closing fence. -/
theorem locateBytes_wellFormed_quoted :
    let source : Text := "é\n> ```js\r\n> x\n> ````\u00a0\r\n".toList
    source.cutAt 5 = .ok 4 ∧ source.cutAt 26 = .ok 24 ∧
      locateBytes source ⟨5, 26⟩ = .ok ((locate? source ⟨4, 24⟩).map (inBytes source)) ∧
      ∃ block, locateBytes source ⟨5, 26⟩ = .ok (some block) ∧
        block.closing = some ⟨18, 22⟩ ∧ WellFormed source ⟨5, 26⟩ block := by
  intro source
  have start : source.cutAt 5 = .ok 4 := by decide +kernel
  have stop : source.cutAt 26 = .ok 24 := by decide +kernel
  let block : FencedBlock :=
    { line := 2, info := "js".toList, fence := ⟨'`', 3⟩, opening := ⟨5, 8⟩,
      closing := some ⟨18, 22⟩, body := ⟨12, 16⟩, linePrefix := "> ".toList,
      openingHasNewline := true, endsWithNewline := true }
  have found : locateBytes source ⟨5, 26⟩ = .ok (some block) := by decide +kernel
  obtain ⟨same, -, wellFormed⟩ := @locateBytes_wellFormed source ⟨5, 26⟩ 4 24 start stop
  exact ⟨start, stop, same, block, found, rfl, wellFormed block found⟩

end FencedBlock
end Transclusion
