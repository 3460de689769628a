import Transclusion.CommonMark.Structure
import Transclusion.Document

/-! Markdown documents: their fenced blocks are those of CommonMark. -/
namespace Transclusion.Document

/-- The fenced blocks of a document, in document order. -/
def blocks (text : Text) : List FencedBlock := blocksAt (CommonMark.fencedRanges text) text

/-- Rewrites a document. -/
def rewrite {m : Type → Type} [Monad m] (source : Source m) (options : Options) (text : Text) :
    m (Except RewriteError Text) :=
  rewriteWith CommonMark.fencedRanges source options text

end Transclusion.Document
