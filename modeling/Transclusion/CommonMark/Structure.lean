import Transclusion.CommonMark.BlockStart
import Transclusion.CommonMark.Html
import Transclusion.CommonMark.Line
import Transclusion.CommonMark.LinkDefinition
import Transclusion.Splice

/-! The block structure of a CommonMark document, as far as it decides where fenced
code blocks are. A document is read line by line; between two lines the open
containers and the open leaf block are all that is remembered. -/
namespace Transclusion.CommonMark

/-- An open container block. -/
inductive Frame where
  | quote
  /-- A list item whose lines are indented by `width` columns. As long as it has no
  block, a blank line ends it. -/
  | item (width : Nat) (hasBlock : Bool)
deriving DecidableEq, Repr

/-- The open block that holds lines. -/
inductive Leaf where
  | none
  | paragraph (text : Text)
  /-- A fenced code block that was opened at position `start`. -/
  | fenced (start : Nat) (fence : Fence)
  | indented
  | html (kind : HtmlKind)
deriving DecidableEq, Repr

/-- What is open between two lines, and the fenced blocks found so far, last first. -/
structure State where
  frames : List Frame
  leaf : Leaf
  found : List Span
deriving DecidableEq, Repr

/-- What the rest of a line is, after the containers it opens. -/
inductive Remainder where
  | blank
  /-- Text that continues or starts a paragraph. -/
  | text
  /-- A block of one line, or the underline that makes a heading of a paragraph. -/
  | oneLine
  | indented
  | html (kind : HtmlKind)
  | fenced (fence : Fence)
deriving DecidableEq, Repr

/-- The list item a line opens, and the cursor in front of its content. Five columns
of white space or more belong to the content as code, except for one. -/
def openItem? (cursor : Cursor) (inParagraph : Bool) : Option (Frame × Cursor) :=
  match listMarker? cursor.rest with
  | none => none
  | some (length, interrupts) =>
    let after := cursor.skip length
    if after.indent = 0 && !after.isBlank then none
    else if inParagraph && (after.isBlank || !interrupts) then none
    else if after.isBlank || 5 ≤ after.indent then
      some (.item (cursor.indent + length + 1) false, after.skipIndent (min after.indent 1))
    else some (.item (cursor.indent + length + after.indent) false, after.skipIndent after.indent)

theorem length_rest_openItem?_lt {cursor after : Cursor} {inParagraph : Bool} {frame : Frame}
    (opened : openItem? cursor inParagraph = some (frame, after)) :
    after.rest.length < cursor.rest.length := by
  unfold openItem? at opened
  split at opened
  · simp at opened
  · next length interrupts marker =>
    have left : cursor.rest ≠ [] := by
      intro empty
      simp [listMarker?, empty] at marker
    have positive : 0 < length := by
      unfold listMarker? at marker
      split at marker
      · simp at marker
      · split at marker
        · simp at marker; omega
        · simp only at marker
          split at marker
          · simp at marker
          · split at marker
            · split at marker <;> simp at marker; omega
            · simp at marker
    have shorter := Cursor.length_rest_skip_lt positive left
    simp only at opened
    split at opened
    · simp at opened
    · split at opened
      · simp at opened
      · split at opened <;>
          (simp only [Option.some.injEq, Prod.mk.injEq] at opened
           obtain ⟨-, rfl⟩ := opened
           simpa [Cursor.skipIndent] using shorter)

/-- What the paragraph that is open before a line is to that line. -/
inductive Before where
  | noParagraph
  /-- A paragraph in containers the line has not all continued. -/
  | lazy
  /-- A paragraph the line may continue, break off or underline. -/
  | paragraph (text : Text)
deriving DecidableEq, Repr

namespace Before

def isParagraph : Before → Bool
  | paragraph _ => true
  | _ => false

def isAny : Before → Bool
  | noParagraph => false
  | _ => true

/-- The paragraph has text of its own to make a heading of. -/
def canBeHeading : Before → Bool
  | paragraph text => LinkDefinition.leavesText text
  | _ => false

end Before

/-- What a line that opens no container at the cursor is there. -/
def remainder (cursor : Cursor) (before : Before) : Remainder :=
  if cursor.isBlank then .blank
  else if cursor.isIndented then if before.isAny then .text else .indented
  else if isHashHeading cursor.rest then .oneLine
  else
    match openingFence? cursor.rest with
    | some fence => .fenced fence
    | none =>
      match Html.opened? cursor.rest before.isAny with
      | some kind => .html kind
      | none =>
        if isUnderline cursor.rest && before.canBeHeading then .oneLine
        else if isThematicBreak cursor.rest then .oneLine
        else .text

/-- The cursor behind a block quote marker and the one column of white space that may
follow it. -/
def enterQuote (cursor : Cursor) : Cursor :=
  let after := cursor.skip 1
  after.skipIndent (min after.indent 1)

/-- The containers a line opens from the cursor on, and what its rest is. -/
def openFrom (cursor : Cursor) (before : Before) : List Frame × Remainder × Cursor :=
  if _quoted : !cursor.isIndented && cursor.rest.head? = some '>' then
    let (frames, rest, stop) := openFrom (enterQuote cursor) .noParagraph
    (.quote :: frames, rest, stop)
  else
    match remainder cursor before with
    | .text =>
      if cursor.isIndented then ([], .text, cursor)
      else
        match _opened : openItem? cursor before.isParagraph with
        | none => ([], .text, cursor)
        | some (.quote, _) => ([], .text, cursor)
        | some (.item width _, inner) =>
          let (frames, rest, stop) := openFrom inner .noParagraph
          (.item width (!(frames.isEmpty && rest = .blank)) :: frames, rest, stop)
    | rest => ([], rest, cursor)
termination_by cursor.rest.length
decreasing_by
  · have left : cursor.rest ≠ [] := by
      intro empty
      simp [empty] at _quoted
    have shorter := Cursor.length_rest_skip_lt Nat.one_pos left
    simpa [enterQuote, Cursor.skipIndent] using shorter
  · exact length_rest_openItem?_lt _opened

/-- Walks the open containers on a new line: those it continues, the cursor behind
their starts, and whether it continues all of them. -/
def continueFrames (cursor : Cursor) : List Frame → List Frame × Cursor × Bool
  | [] => ([], cursor, true)
  | frame :: frames =>
    let entered : Option Cursor :=
      match frame with
      | .quote =>
        if !cursor.isIndented && cursor.rest.head? = some '>' then some (enterQuote cursor)
        else none
      | .item width hasBlock =>
        if width ≤ cursor.indent then some (cursor.skipIndent width)
        else if cursor.isBlank && hasBlock then some (cursor.skipIndent cursor.indent)
        else none
    match entered with
    | none => ([], cursor, false)
    | some inner =>
      let (kept, stop, all) := continueFrames inner frames
      (frame :: kept, stop, all)

/-- Notes that the innermost of the frames has a block. -/
def markLast : List Frame → List Frame
  | [] => []
  | [.item width _] => [.item width true]
  | frame :: frames => frame :: markLast frames

/-- Closes the open leaf at a position; a fenced block ends there. -/
def State.closeLeaf (state : State) (position : Nat) : State :=
  match state.leaf with
  | .fenced start _ => { state with leaf := .none, found := ⟨start, position⟩ :: state.found }
  | _ => { state with leaf := .none }

/-- Starts what a line holds besides the containers it continues: new containers and a
new leaf. The leaf of the state is a paragraph the line may add to, or none. -/
def State.start (state : State) (line : Line) (frames : List Frame) (rest : Remainder)
    (stop : Cursor) : State :=
  let marked :=
    if frames.isEmpty && rest = .blank then state.frames else markLast state.frames
  let frames := marked ++ frames
  match rest with
  | .blank | .oneLine => { state with frames, leaf := .none }
  | .indented => { state with frames, leaf := .indented }
  | .html kind =>
    { state with frames, leaf := if Html.closes kind stop.rest then .none else .html kind }
  | .fenced fence =>
    { state with frames, leaf := .fenced (line.stop - stop.rest.length) fence }
  | .text =>
    match state.leaf with
    | .paragraph text => { state with frames, leaf := .paragraph (text ++ '\n' :: stop.rest) }
    | _ => { state with frames, leaf := .paragraph stop.rest }

/-- Reads a line in containers it all continues, where no leaf takes it as it is. -/
def State.readInside (state : State) (line : Line) (cursor : Cursor) : State :=
  let before : Before :=
    match state.leaf with
    | .paragraph text => .paragraph text
    | _ => .noParagraph
  let (frames, rest, stop) := openFrom cursor before
  let paragraphGoesOn := frames.isEmpty && rest = .text
  (if paragraphGoesOn then state else state.closeLeaf line.start).start line frames rest stop

/-- Reads one line. -/
def State.read (state : State) (line : Line) : State :=
  let (kept, cursor, all) := continueFrames (Cursor.before 0 line.content) state.frames
  if all then
    match state.leaf with
    | .fenced _ fence =>
      if isClosingFence fence cursor then state.closeLeaf line.stop else state
    | .indented =>
      if cursor.isIndented || cursor.isBlank then state
      else (state.closeLeaf line.start).readInside line cursor
    | .html kind =>
      if cursor.isBlank && Html.endsAtBlank kind then state.closeLeaf line.start
      else if Html.closes kind cursor.rest then state.closeLeaf line.stop
      else state
    | _ => state.readInside line cursor
  else
    let before : Before :=
      match state.leaf with
      | .paragraph _ => .lazy
      | _ => .noParagraph
    let (frames, rest, stop) := openFrom cursor before
    match state.leaf with
    | .paragraph text =>
      if frames.isEmpty && rest = .text then
        { state with leaf := .paragraph (text ++ '\n' :: stop.rest) }
      else ({ state.closeLeaf line.start with frames := kept }).start line frames rest stop
    | _ => ({ state.closeLeaf line.start with frames := kept }).start line frames rest stop

/-- The range of every fenced code block, in document order. It starts at the fence
and ends behind the closing fence line, before its line ending; without a closing
fence it ends where the containers of the block do, or with the document. -/
def fencedRanges (text : Text) : List Span :=
  let last := (Line.split text).foldl State.read ⟨[], .none, []⟩
  (last.closeLeaf text.length).found.reverse

end Transclusion.CommonMark
