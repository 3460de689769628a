import Transclusion.Container.ByteOffsets
import Transclusion.FencedBlock
import Transclusion.Splice.ByteOffsets

/-! The same search with byte offsets into the document and its opening line. Whatever is
cut out is cut where the search has arrived, so a wrong offset shows as a fault. -/
namespace Transclusion.FencedBlock
open Text

/-- The block with its parts given by byte offsets. -/
def inBytes (source : Text) (block : FencedBlock) : FencedBlock :=
  { block with
    opening := block.opening.inBytes source
    closing := block.closing.map (Span.inBytes source)
    body := block.body.inBytes source }

/-- The offset right behind the last newline of a text. -/
def behindLastNewline (text : Text) : Nat :=
  match findLast? (· = '\n') text with
  | none => 0
  | some offset => offset + 1

/-- The line around an offset, without the newline at its end. -/
def lineAround (source : Text) (offset : Nat) : Except Fault Span := do
  let front ← source.upTo offset
  let back ← source.onward offset
  let stop := match find? (· = '\n') back with
    | none => source.byteLength
    | some length => offset + length
  return ⟨behindLastNewline front, stop⟩

/-- How far behind one offset another is. -/
def distance (start stop : Nat) : Except Fault Nat :=
  if stop < start then .error (.backwards start stop) else .ok (stop - start)

/-- The offset nearest to another between two bounds. -/
def clamp (offset low high : Nat) : Except Fault Nat :=
  if high < low then .error (.backwards low high) else .ok (min (max offset low) high)

/-- The first run of markers behind an offset of a line, and where it starts. -/
def fenceFrom? (line : Text) (offset : Nat) : Except Fault (Option (Nat × Fence)) := do
  let behind ← line.onward offset
  match find? isMarker behind with
  | none => return none
  | some gap =>
    let marker ← byteAt line.bytes (offset + gap)
    let run ← line.onward (offset + gap)
    return some (offset + gap,
      ⟨Char.ofUInt8 marker, ((bytes run).takeWhile (· == marker)).length⟩)

/-- The body of a block and its closing fence, which stands on the last line that is not
empty, if it stands there at all. -/
def closeFrom (source : Text) (fence : Fence) (lead : Text) (bodyStart blockEnd : Nat) :
    Except Fault (Span × Option Span) := do
  let whole ← source.upTo blockEnd
  let contentEnd := byteLength (dropEndWhile (fun c => c = '\n' || c = '\r') whole)
  let content ← source.upTo contentEnd
  let lastLine := behindLastNewline content
  let containers ← Container.containersFrom lead.bytes 0
  if bodyStart ≤ lastLine then
    let line ← source.between lastLine contentEnd
    match ← fence.closingFrom? containers line with
    | none => return (⟨bodyStart, blockEnd⟩, none)
    | some (place, run) =>
      return (⟨bodyStart, lastLine⟩, some ⟨lastLine + place, lastLine + place + run⟩)
  else return (⟨bodyStart, blockEnd⟩, none)

/-- Finds the parts of the block that occupies a range of byte offsets. -/
def locateBytes (source : Text) (range : Span) : Except Fault (Option FencedBlock) := do
  let line ← lineAround source range.start
  let openingLine ← source.between line.start line.stop
  let offset ← distance line.start range.start
  match ← fenceFrom? openingLine offset with
  | none => return none
  | some (fenceAt, fence) =>
    let openingHasNewline := decide (line.stop < source.byteLength)
    let bodyStart := if openingHasNewline then line.stop + 1 else line.stop
    let blockEnd ← clamp range.stop bodyStart source.byteLength
    let lead ← openingLine.upTo fenceAt
    let (body, closing) ← closeFrom source fence lead bodyStart blockEnd
    let before ← source.upTo line.start
    let info ← openingLine.onward (fenceAt + fence.length)
    let whole ← source.upTo blockEnd
    return some {
      line := before.count '\n' + 1
      info := Text.trim info
      fence
      opening := ⟨line.start + fenceAt, line.start + fenceAt + fence.length⟩
      closing
      body
      linePrefix := Container.continuation lead
      openingHasNewline
      endsWithNewline := whole.getLast? == some '\n' }

end Transclusion.FencedBlock
