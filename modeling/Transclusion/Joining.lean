import Transclusion.Document

/-! Fetching the sources of a document side by side. Every fetch is started, in document
order, before any is waited for; then the fetches are polled in any order until all have
settled. Nothing comes of the document before that. -/
namespace Transclusion

/-- How far a fetch is. -/
inductive Progress (φ : Type) where
  | underWay (fetch : φ)
  | settled (answer : Except FetchError Text)

/-- A source whose answers may take time, with the effects of `m`: a request starts a
fetch, and polls drive the fetch until it has settled. -/
structure Fetcher (m : Type → Type) (φ : Type) where
  start : Request → m φ
  poll : φ → m (Progress φ)

/-- What a fetcher sees of a document. The place of a fetch counts the requests before
its own. -/
inductive FetchEvent where
  | asked (request : Request)
  | settled (answer : Except FetchError Text) (place : Nat)

namespace FetchEvent

/-- The requests made, in their order. -/
def requests (events : List FetchEvent) : List Request :=
  events.filterMap fun
    | asked request => some request
    | settled _ _ => none

/-- The answers given, in the order in which they came, each with the place of its fetch. -/
def settlements (events : List FetchEvent) : List (Except FetchError Text × Nat) :=
  events.filterMap fun
    | asked _ => none
    | settled answer place => some (answer, place)

end FetchEvent

namespace Fetcher

variable {σ φ : Type}

/-- The fetcher of a source that answers at once. -/
def atOnce {m : Type → Type} [Monad m] (source : Source m) : Fetcher m Request where
  start request := pure request
  poll request := do
    let answer ← source request
    pure (.settled answer)

/-- The fetcher of a source that lets every request wait for a second poll. -/
def atSecondPoll {m : Type → Type} [Monad m] (source : Source m) : Fetcher m (Request × Bool) where
  start request := pure (request, false)
  poll := fun (request, polled) =>
    if polled then do
      let answer ← source request
      pure (.settled answer)
    else pure (.underWay (request, true))

/-- The same fetcher, with everything it sees noted. -/
def recorded (fetcher : Fetcher (StateM σ) φ) :
    Fetcher (StateM (σ × List FetchEvent)) (Nat × φ) where
  start request := fun (state, events) =>
    let (fetch, state) := fetcher.start request state
    (((FetchEvent.requests events).length, fetch), (state, events ++ [.asked request]))
  poll := fun (place, fetch) (state, events) =>
    match fetcher.poll fetch state with
    | (.underWay fetch, state) => (.underWay (place, fetch), (state, events))
    | (.settled answer, state) => (.settled answer, (state, events ++ [.settled answer place]))

end Fetcher

namespace Document

variable {m : Type → Type} [Monad m] {φ : Type}

/-- Starts the fetch of every block, in order, and polls each once. -/
def startAll (fetcher : Fetcher m φ) : List PendingBlock → m (List (PendingBlock × Progress φ))
  | [] => pure []
  | pending :: rest => do
    let fetch ← fetcher.start pending.request
    let progress ← fetcher.poll fetch
    let others ← startAll fetcher rest
    pure ((pending, progress) :: others)

/-- Polls the fetch at a place, if it is under way. -/
def pollAt (fetcher : Fetcher m φ) (fetches : List (PendingBlock × Progress φ)) (place : Nat) :
    m (List (PendingBlock × Progress φ)) :=
  match fetches[place]? with
  | some (pending, .underWay fetch) => do
    let progress ← fetcher.poll fetch
    pure (fetches.set place (pending, progress))
  | _ => pure fetches

/-- The answers, if all fetches have settled. -/
def settledAll? :
    List (PendingBlock × Progress φ) → Option (List (PendingBlock × Except FetchError Text))
  | [] => some []
  | (_, .underWay _) :: _ => none
  | (pending, .settled answer) :: rest => (settledAll? rest).map ((pending, answer) :: ·)

/-- Rewrites a document whose fenced blocks are at `ranges`, with its fetches side by side;
after the first poll of each they are polled at `turns`. -/
def rewriteJoined (fetcher : Fetcher m φ) (options : Options) (ranges : List Span) (text : Text)
    (turns : List Nat) : m (Option (Except RewriteError Text)) :=
  match pending options (blocksAt ranges text) with
  | .error e => pure (some (.error e))
  | .ok waiting => do
    let started ← startAll fetcher waiting
    let fetches ← turns.foldlM (pollAt fetcher) started
    pure ((settledAll? fetches).map fun answers =>
      (fillAll options answers).map fun edits => Edit.applyAll edits text)

end Document
end Transclusion
