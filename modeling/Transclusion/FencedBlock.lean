import Transclusion.Container
import Transclusion.Splice

/-! A fenced code block inside a document: where its fences and its body are, and
the edits that give it a new body without touching anything else. -/
namespace Transclusion

/-- A fenced block located in a document. -/
structure FencedBlock where
  /-- The line of the opening fence, counted from 1. -/
  line : Nat
  /-- What stands behind the opening fence, trimmed. -/
  info : Text
  fence : Fence
  /-- The run of markers that opens the block. -/
  opening : Span
  /-- The run of markers that closes it, if there is one. -/
  closing : Option Span
  /-- Everything between the two fence lines. -/
  body : Span
  /-- What every line of the body starts with inside its containers. -/
  linePrefix : Text
  /-- The opening line is ended by a newline. -/
  openingHasNewline : Bool
  /-- The block is ended by a newline. -/
  endsWithNewline : Bool
deriving DecidableEq, Repr

namespace FencedBlock

/-- The position right behind the last newline before `position`. -/
def lineStart (source : Text) (position : Nat) : Nat :=
  position - ((source.take position).reverse.takeWhile (· ≠ '\n')).length

def isMarker (c : Char) : Bool := c = '`' || c = '~'

/-- Finds the parts of the block that occupies `range` in `source`. The range starts
on the opening line, at or before the fence; nothing is found if no fence follows. -/
def locate? (source : Text) (range : Span) : Option FencedBlock :=
  let start := lineStart source range.start
  let openingLine := (source.drop start).takeWhile (· ≠ '\n')
  let lineEnd := start + openingLine.length
  let offset := range.start - start
  let fenceAt := offset + Text.countWhile (!isMarker ·) (openingLine.drop offset)
  match openingLine.drop fenceAt with
  | [] => none
  | marker :: afterFirst =>
    let fence : Fence := ⟨marker, Text.countWhile (· = marker) (marker :: afterFirst)⟩
    let openingHasNewline := decide (lineEnd < source.length)
    let bodyStart := if openingHasNewline then lineEnd + 1 else lineEnd
    let blockEnd := min (max range.stop bodyStart) source.length
    let content := Text.dropEndWhile (fun c => c = '\n' || c = '\r') (source.take blockEnd)
    let lastLineStart := lineStart content content.length
    let lead := openingLine.take fenceAt
    let closing :=
      if bodyStart ≤ lastLineStart then
        fence.closing? (Container.ofLead lead) (content.drop lastLineStart)
      else none
    some {
      line := (source.take start).count '\n' + 1
      info := Text.trim ((marker :: afterFirst).drop fence.length)
      fence
      opening := ⟨start + fenceAt, start + fenceAt + fence.length⟩
      closing := closing.map fun (place, run) =>
        ⟨lastLineStart + place, lastLineStart + place + run⟩
      body := ⟨bodyStart, if closing.isSome then lastLineStart else blockEnd⟩
      linePrefix := Container.continuation lead
      openingHasNewline
      endsWithNewline := (source.take blockEnd).getLast? == some '\n' }

/-- The first word of the info string. -/
def language? (block : FencedBlock) : Option Text := block.info.firstWord?

/-- The info string after its first word, if anything is left. -/
def meta? (block : FencedBlock) : Option Text :=
  match Text.trimStart (block.info.dropWhile (!isWhiteSpace ·)) with
  | [] => none
  | text => some text

def isClosed (block : FencedBlock) : Bool := block.closing.isSome

/-- The lines a snippet is written as; the empty snippet has none. -/
def contentLines (content : Text) : List Text :=
  if content.isEmpty then [] else content.lines

/-- A snippet line as it stands in the block. An empty line keeps the prefix without
the white space at its end. -/
def bodyLine (block : FencedBlock) (line : Text) : Text :=
  if line.isEmpty then block.linePrefix.trimEnd ++ ['\n']
  else block.linePrefix ++ line ++ ['\n']

/-- The new body: the snippet line by line, then a closing fence if the block has
none. -/
def bodyText (block : FencedBlock) (lines : List Text) (fence : Fence) : Text :=
  (if block.openingHasNewline then [] else ['\n']) ++
    (lines.map block.bodyLine).flatten ++
    (if block.isClosed then []
     else block.linePrefix ++ fence.render ++ (if block.endsWithNewline then ['\n'] else []))

/-- The edits that replace the body by `content`, and both fences where the content
could close the block. -/
def edits (block : FencedBlock) (content : Text) : List Edit :=
  let lines := contentLines content
  let fence := block.fence.widenFor lines
  let fences :=
    if fence = block.fence then []
    else (block.opening :: block.closing.toList).map fun span => ⟨span, fence.render⟩
  ⟨block.body, block.bodyText lines fence⟩ :: fences

end FencedBlock
end Transclusion
