import Transclusion.Host

/-! Sources that are files. A relative locator starts at the folder of the document,
and what it names must lie in a root folder, links followed. -/
namespace Transclusion

/-- Where locators start, and where what they name must lie. -/
structure LocalSource where
  base : Text
  root : Text
  /-- Files anywhere will do. -/
  allowOutside : Bool
deriving DecidableEq, Repr

namespace LocalSource

variable {m : Type → Type} [Monad m]

/-- The real path a locator names, if the source may read there. -/
def resolve (host : Host m) (source : LocalSource) (locator : Text) :
    m (Except FetchError RealPath) := do
  let candidate := Path.join source.base locator
  match ← host.realPath candidate with
  | .error .notFound => pure (.error (.notFound candidate))
  | .error cause => pure (.error (.io candidate cause))
  | .ok path =>
    if source.allowOutside then pure (.ok path)
    else
      match ← host.realPath source.root with
      | .error cause => pure (.error (.io source.root cause))
      | .ok root =>
        if path.isUnder root then pure (.ok path)
        else pure (.error (.outsideRoot path.render root.render))

/-- The text of the file a locator names. -/
def fetch (host : Host m) (source : LocalSource) (locator : Text) :
    m (Except FetchError Text) := do
  match ← resolve host source locator with
  | .error e => pure (.error e)
  | .ok path =>
    match ← host.textAt path with
    | .error cause => pure (.error (.io path.render cause))
    | .ok text => pure (.ok text)

/-- Files for all requests, whatever kind they are of. -/
def alone (host : Host m) (source : LocalSource) : Source m := fun request =>
  source.fetch host request.locator

/-- Files for requests of files, pages for all others. -/
def orWeb (host : Host m) (source : LocalSource) : Source m := fun request =>
  match request.kind with
  | .file => source.fetch host request.locator
  | .web => Web.fetch host.get request.locator

end LocalSource
end Transclusion
