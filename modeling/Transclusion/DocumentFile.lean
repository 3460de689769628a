import Transclusion.Host

/-! Documents as files. -/
namespace Transclusion

/-- Why a document could not be read or written. -/
inductive DocumentError where
  | notFound (path : Text)
  | io (cause : FileError)
deriving DecidableEq, Repr

def DocumentError.message : DocumentError → Text
  | notFound path => "File not found: ".toList ++ path
  | io cause => "IO error: ".toList ++ cause.message

namespace DocumentFile

/-- The text of a document. -/
def read {m : Type → Type} [Monad m] (host : Host m) (path : Text) :
    m (Except DocumentError Text) := do
  if ← host.isThere path then
    match ← host.read path with
    | .error cause => pure (.error (.io cause))
    | .ok text => pure (.ok text)
  else pure (.error (.notFound path))

end DocumentFile
end Transclusion
