import Transclusion.Source
import Transclusion.Url

/-! Fetching a source over the web. -/
namespace Transclusion

/-- What comes back for a URL. -/
inductive Reply where
  | page (status : Nat) (body : Text)
  /-- No page, and why. -/
  | failed (message : Text)
deriving DecidableEq, Repr

/-- Answers for URLs of the schemes `http` and `https`. -/
abbrev Web := Url → Reply

namespace Web

/-- No host can be reached, and no name be looked up. -/
def offline : Web := fun url =>
  .failed <|
    if url.hasAddress then
      "Connection Failed: Connect error: Network is unreachable (os error 101)".toList
    else
      "Dns Failed: resolve dns name '".toList ++ url.host ++ ':' :: Text.ofNat url.portOrDefault ++
        "': failed to lookup address information: Temporary failure in name resolution".toList

/-- Statuses from here on are failures. -/
def firstFailure : Nat := 400

/-- The text at a locator, or why there is none. -/
def fetch {m : Type → Type} [Monad m] (get : Url → m Reply) (locator : Text) :
    m (Except FetchError Text) :=
  match Url.parse locator with
  | .error e =>
    pure (.error (.transport locator ("Bad URL: failed to parse URL: ".toList ++ e.message)))
  | .ok url =>
    if url.scheme = "http".toList || url.scheme = "https".toList then do
      match ← get url with
      | .page status body =>
        if firstFailure ≤ status then pure (.error (.status locator status)) else pure (.ok body)
      | .failed message =>
        pure (.error (.transport locator (url.render ++ ": ".toList ++ message)))
    else
      pure (.error (.transport locator (url.render ++
        ": Unknown Scheme: unknown scheme '".toList ++ url.scheme ++ ['\''])))

end Web
end Transclusion
