import Transclusion.Directive
import Transclusion.FencedBlock
import Transclusion.Snippet
import Transclusion.Source

/-! Rewriting a document: every fenced block with a directive gets the snippet the
directive points at. All directives are read before anything is fetched, all sources
are fetched before anything is written, and the first failure in document order is
the one reported. -/
namespace Transclusion

/-- How directives are read and snippets cut. -/
structure Options where
  /-- Keep the empty line after the final newline of a source in open ranges. -/
  keepFinalNewline : Bool
  /-- Strip the indentation shared by the lines of a snippet. -/
  unindent : Bool
  /-- Replaces the root placeholder in locators. -/
  rootDir : Text
  prefixes : Prefixes
deriving DecidableEq, Repr

namespace Options

/-- Nothing kept, nothing stripped, the standard keywords. -/
def standard : Options := ⟨false, false, [], .standard⟩

end Options

/-- Why a document could not be rewritten, with the line of the block at fault. -/
inductive RewriteError where
  | directive (line : Nat) (cause : Directive.SyntaxError)
  | fetch (line : Nat) (cause : FetchError)
deriving DecidableEq, Repr

namespace RewriteError

def line : RewriteError → Nat
  | directive line _ => line
  | fetch line _ => line

def causeMessage : RewriteError → Text
  | directive _ cause => cause.message
  | fetch _ cause => cause.message

def message (error : RewriteError) : Text :=
  "Code block at line ".toList ++ Text.ofNat error.line ++ ": ".toList ++ error.causeMessage

end RewriteError

/-- A block that waits for its snippet. -/
structure PendingBlock where
  block : FencedBlock
  directive : Directive
deriving DecidableEq, Repr

namespace PendingBlock

/-- What the block asks for. -/
def request (pending : PendingBlock) : Request :=
  ⟨pending.directive.kind, pending.directive.locator⟩

/-- What the block is filled with: the snippet its directive cuts from a source. -/
def snippet (pending : PendingBlock) (options : Options) (source : Text) : Text :=
  Snippet.extract source pending.directive.range options.keepFinalNewline options.unindent

/-- The edits that fill the block from its source. -/
def edits (pending : PendingBlock) (options : Options) (source : Text) : List Edit :=
  pending.block.edits (pending.snippet options source)

end PendingBlock

/-- Where the fenced blocks of a text are. -/
abbrev Scanner := Text → List Span

namespace Document

/-- The blocks at `ranges`, in their order. -/
def blocksAt (ranges : List Span) (text : Text) : List FencedBlock :=
  ranges.filterMap (FencedBlock.locate? text)

/-- The token of a block that is its directive. -/
def directiveToken? (options : Options) (block : FencedBlock) : Option Text :=
  block.meta?.bind fun text => Meta.directiveToken? text options.prefixes

/-- The blocks that carry a directive, or the error of the first malformed one. -/
def pending (options : Options) : List FencedBlock → Except RewriteError (List PendingBlock)
  | [] => .ok []
  | block :: blocks =>
    match directiveToken? options block with
    | none => pending options blocks
    | some token =>
      match Directive.parse token options.rootDir options.prefixes with
      | .error cause => .error (.directive block.line cause)
      | .ok directive => (pending options blocks).map (⟨block, directive⟩ :: ·)

/-- The edits of all blocks from what was fetched for each, or the error of the first
that failed. -/
def fillAll (options : Options) :
    List (PendingBlock × Except FetchError Text) → Except RewriteError (List Edit)
  | [] => .ok []
  | (pending, .error cause) :: _ => .error (.fetch pending.block.line cause)
  | (pending, .ok source) :: rest =>
    (fillAll options rest).map (pending.edits options source ++ ·)

/-- Asks for every source, in order, also after a failure. -/
def fetchAll {m : Type → Type} [Monad m] (source : Source m) :
    List PendingBlock → m (List (PendingBlock × Except FetchError Text))
  | [] => pure []
  | pending :: rest => do
    let answer ← source pending.request
    let answers ← fetchAll source rest
    pure ((pending, answer) :: answers)

/-- Rewrites a document whose fenced blocks are at `ranges`. -/
def rewriteAt {m : Type → Type} [Monad m] (source : Source m) (options : Options)
    (ranges : List Span) (text : Text) : m (Except RewriteError Text) :=
  match pending options (blocksAt ranges text) with
  | .error e => pure (.error e)
  | .ok waiting => do
    let answers ← fetchAll source waiting
    pure ((fillAll options answers).map fun edits => Edit.applyAll edits text)

/-- Rewrites a document whose fenced blocks are where the scanner finds them. -/
def rewriteWith {m : Type → Type} [Monad m] (scan : Scanner) (source : Source m)
    (options : Options) (text : Text) : m (Except RewriteError Text) :=
  rewriteAt source options (scan text) text

end Document
end Transclusion
