import Transclusion.FileError
import Transclusion.Prefixes

/-! Sources: whatever answers a request for the text behind a locator, and the ways
it can fail to. -/
namespace Transclusion

/-- A request for one source. -/
structure Request where
  kind : SourceKind
  locator : Text
deriving DecidableEq, Repr

/-- Why a source could not be had. -/
inductive FetchError where
  | notFound (locator : Text)
  | io (path : Text) (cause : FileError)
  | outsideRoot (path root : Text)
  | status (locator : Text) (code : Nat)
  | transport (locator message : Text)
deriving DecidableEq, Repr

def FetchError.message : FetchError → Text
  | notFound locator => "Source not found: ".toList ++ locator
  | io path cause => "Unable to read ".toList ++ path ++ ": ".toList ++ cause.message
  | outsideRoot path root => path ++ " is outside of ".toList ++ root
  | status locator code =>
    "Unable to fetch file at ".toList ++ locator ++ " (HTTP ".toList ++ Text.ofNat code ++ [')']
  | transport locator message =>
    "Unable to fetch file at ".toList ++ locator ++ ": ".toList ++ message

/-- Answers requests, with the effects of `m`. -/
abbrev Source (m : Type → Type) := Request → m (Except FetchError Text)

namespace Source

/-- Answers from a table, whatever the kind asked for. -/
def table (entries : List (Text × Except FetchError Text)) : Source Id := fun request =>
  match entries.find? (·.1 = request.locator) with
  | some (_, answer) => answer
  | none => .error (.notFound request.locator)

/-- The same answers, with every request noted in the order asked. -/
def logged (source : Source Id) : Source (StateM (List Request)) := fun request asked =>
  (source request, asked ++ [request])

end Source
end Transclusion
