import Transclusion.Joining
import Transclusion.Proofs.Failures

/-! Fetches side by side. However the turns fall, each block is asked for once, in document
order, and keeps the answer to its own fetch; so what is reported depends on the answers and
on the order of the blocks, not on the order in which the answers came. -/
namespace Transclusion

namespace FetchEvent

@[simp] theorem requests_append (first second : List FetchEvent) :
    requests (first ++ second) = requests first ++ requests second :=
  List.filterMap_append ..

@[simp] theorem settlements_append (first second : List FetchEvent) :
    settlements (first ++ second) = settlements first ++ settlements second :=
  List.filterMap_append ..

@[simp] theorem requests_asked (request : Request) : requests [asked request] = [request] := rfl

@[simp] theorem requests_settled (answer : Except FetchError Text) (place : Nat) :
    requests [settled answer place] = [] := rfl

@[simp] theorem settlements_asked (request : Request) : settlements [asked request] = [] := rfl

@[simp] theorem settlements_settled (answer : Except FetchError Text) (place : Nat) :
    settlements [settled answer place] = [(answer, place)] := rfl

end FetchEvent

open FetchEvent

namespace Fetcher
variable {σ φ : Type} {fetcher : Fetcher (StateM σ) φ} {state after : σ}
  {events : List FetchEvent} {place : Nat} {fetch next : φ} {answer : Except FetchError Text}

theorem recorded_start (fetcher : Fetcher (StateM σ) φ) (request : Request) (state : σ)
    (events : List FetchEvent) :
    fetcher.recorded.start request (state, events) =
      let began := fetcher.start request state
      (((requests events).length, began.1), (began.2, events ++ [.asked request])) := rfl

theorem recorded_poll_underWay (polled : fetcher.poll fetch state = (.underWay next, after)) :
    fetcher.recorded.poll (place, fetch) (state, events) =
      (.underWay (place, next), (after, events)) := by
  simp only [recorded, polled]

theorem recorded_poll_settled (polled : fetcher.poll fetch state = (.settled answer, after)) :
    fetcher.recorded.poll (place, fetch) (state, events) =
      (.settled answer, (after, events ++ [.settled answer place])) := by
  simp only [recorded, polled]

end Fetcher

namespace Document
variable {σ φ : Type} {waiting : List PendingBlock}

/-- The answers that are there, each with the place of its fetch, counted from `first`. -/
def settledFrom (first : Nat) :
    List (PendingBlock × Progress φ) → List (Except FetchError Text × Nat)
  | [] => []
  | (_, .underWay _) :: rest => settledFrom (first + 1) rest
  | (_, .settled answer) :: rest => (answer, first) :: settledFrom (first + 1) rest

/-- Every fetch that is under way was noted under its own place, counted from `first`. -/
def Numbered (first : Nat) (fetches : List (PendingBlock × Progress (Nat × φ))) : Prop :=
  ∀ place pending own fetch, fetches[place]? = some (pending, .underWay (own, fetch)) →
    own = first + place

section Slots
variable {fetches : List (PendingBlock × Progress φ)} {pending : PendingBlock} {place : Nat}
  {fetch next : φ}

theorem settledFrom_set_underWay (first : Nat)
    (found : fetches[place]? = some (pending, .underWay fetch)) :
    settledFrom first (fetches.set place (pending, .underWay next)) = settledFrom first fetches := by
  induction fetches generalizing first place with
  | nil => simp at found
  | cons head fetches ih =>
    cases place with
    | zero =>
      obtain rfl : head = (pending, .underWay fetch) := by simpa using found
      rfl
    | succ place =>
      have rest : fetches[place]? = some (pending, .underWay fetch) := by simpa using found
      obtain ⟨own, progress⟩ := head
      cases progress with
      | underWay other => exact ih (first + 1) rest
      | settled answer => exact congrArg ((answer, first) :: ·) (ih (first + 1) rest)

/-- A fetch that settles adds its answer, with its place. -/
theorem settledFrom_set_settled (first : Nat) (answer : Except FetchError Text)
    (found : fetches[place]? = some (pending, .underWay fetch)) :
    (settledFrom first (fetches.set place (pending, .settled answer))).Perm
      (settledFrom first fetches ++ [(answer, first + place)]) := by
  induction fetches generalizing first place with
  | nil => simp at found
  | cons head fetches ih =>
    cases place with
    | zero =>
      obtain rfl : head = (pending, .underWay fetch) := by simpa using found
      exact (List.perm_append_singleton (answer, first) (settledFrom (first + 1) fetches)).symm
    | succ place =>
      have rest : fetches[place]? = some (pending, .underWay fetch) := by simpa using found
      have later := ih (first + 1) rest
      rw [Nat.add_right_comm, Nat.add_assoc] at later
      obtain ⟨own, progress⟩ := head
      cases progress with
      | underWay other => exact later
      | settled given => exact later.cons (given, first)

theorem map_fst_set {progress other : Progress φ} (found : fetches[place]? = some (pending, other)) :
    (fetches.set place (pending, progress)).map Prod.fst = fetches.map Prod.fst := by
  have own : (fetches.map Prod.fst)[place]? = some pending := by
    rw [List.getElem?_map, found]
    rfl
  obtain ⟨bound, same⟩ := List.getElem?_eq_some_iff.mp own
  rw [List.map_set, ← same, List.set_getElem_self]

end Slots

theorem Numbered.set {fetches : List (PendingBlock × Progress (Nat × φ))} {first place : Nat}
    (numbered : Numbered first fetches) {pending : PendingBlock} {progress : Progress (Nat × φ)}
    (proper : ∀ own fetch, progress = .underWay (own, fetch) → own = first + place) :
    Numbered first (fetches.set place (pending, progress)) := by
  intro other otherPending own fetch found
  rw [List.getElem?_set] at found
  split at found
  · next same =>
    split at found
    · cases found
      rw [proper own fetch rfl, same]
    · cases found
  · exact numbered other otherPending own fetch found

theorem Numbered.cons {fetches : List (PendingBlock × Progress (Nat × φ))} {first : Nat}
    (numbered : Numbered (first + 1) fetches) {pending : PendingBlock}
    {progress : Progress (Nat × φ)}
    (proper : ∀ own fetch, progress = .underWay (own, fetch) → own = first) :
    Numbered first ((pending, progress) :: fetches) := by
  intro place other own fetch found
  cases place with
  | zero =>
    cases found
    exact proper own fetch rfl
  | succ place =>
    rw [numbered place other own fetch (by simpa using found)]
    omega

section Steps
variable {fetcher : Fetcher (StateM σ) φ} {state after : σ} {events : List FetchEvent}
  {place : Nat} {fetch next : φ} {answer : Except FetchError Text}

theorem startAll_cons (fetcher : Fetcher (StateM σ) φ) (pending : PendingBlock)
    (waiting : List PendingBlock) (state : σ) :
    startAll fetcher (pending :: waiting) state =
      let began := fetcher.start pending.request state
      let polled := fetcher.poll began.1 began.2
      let others := startAll fetcher waiting polled.2
      ((pending, polled.1) :: others.1, others.2) := rfl

theorem turns_cons (fetcher : Fetcher (StateM σ) φ) (place : Nat) (turns : List Nat)
    (fetches : List (PendingBlock × Progress φ)) (state : σ) :
    (place :: turns).foldlM (pollAt fetcher) fetches state =
      let polled := pollAt fetcher fetches place state
      turns.foldlM (pollAt fetcher) polled.1 polled.2 := rfl

theorem pollAt_of_none {fetches : List (PendingBlock × Progress φ)}
    (found : fetches[place]? = none) : pollAt fetcher fetches place state = (fetches, state) := by
  unfold pollAt
  rw [found]
  rfl

theorem pollAt_of_settled {fetches : List (PendingBlock × Progress φ)} {pending : PendingBlock}
    (found : fetches[place]? = some (pending, .settled answer)) :
    pollAt fetcher fetches place state = (fetches, state) := by
  unfold pollAt
  rw [found]
  rfl

theorem pollAt_of_underWay {fetches : List (PendingBlock × Progress φ)} {pending : PendingBlock}
    (found : fetches[place]? = some (pending, .underWay fetch)) :
    pollAt fetcher fetches place state =
      let polled := fetcher.poll fetch state
      (fetches.set place (pending, polled.1), polled.2) := by
  unfold pollAt
  rw [found]
  rfl

end Steps

/-- What a record says of the fetches it was kept of. -/
structure Tracks (waiting : List PendingBlock)
    (fetches : List (PendingBlock × Progress (Nat × φ))) (events : List FetchEvent) : Prop where
  blocks : fetches.map Prod.fst = waiting
  asked : requests events = waiting.map PendingBlock.request
  answered : (settlements events).Perm (settledFrom 0 fetches)
  numbered : Numbered 0 fetches

/-- The first round asks for every block, in order, and notes the answers that come at once. -/
theorem startAll_recorded (fetcher : Fetcher (StateM σ) φ) (waiting : List PendingBlock)
    (state : σ) (events : List FetchEvent) :
    let ran := startAll fetcher.recorded waiting (state, events)
    ran.1.map Prod.fst = waiting ∧
      requests ran.2.2 = requests events ++ waiting.map PendingBlock.request ∧
      settlements ran.2.2 = settlements events ++ settledFrom (requests events).length ran.1 ∧
      Numbered (requests events).length ran.1 := by
  -- Places count all requests made so far, so the record that is there already stays general.
  induction waiting generalizing state events with
  | nil =>
    refine ⟨rfl, (List.append_nil _).symm, (List.append_nil _).symm, ?_⟩
    intro place pending own fetch found
    cases found
  | cons pending waiting ih =>
    rw [startAll_cons, Fetcher.recorded_start]
    generalize fetcher.start pending.request state = began
    cases polled : fetcher.poll began.1 began.2 with
    | mk progress after =>
      cases progress with
      | underWay next =>
        simp only [Fetcher.recorded_poll_underWay polled]
        obtain ⟨blocks, made, given, numbered⟩ := ih after (events ++ [asked pending.request])
        simp only [requests_append, settlements_append, requests_asked, settlements_asked,
          List.append_nil, List.length_append, List.length_singleton] at made given numbered
        refine ⟨by rw [List.map_cons, blocks], by rw [made]; simp, given, numbered.cons ?_⟩
        rintro own fetch ⟨⟩
        rfl
      | settled answer =>
        simp only [Fetcher.recorded_poll_settled polled]
        obtain ⟨blocks, made, given, numbered⟩ :=
          ih after (events ++ [asked pending.request] ++ [settled answer (requests events).length])
        simp only [requests_append, settlements_append, requests_asked, settlements_asked,
          requests_settled, settlements_settled, List.append_nil, List.length_append,
          List.length_singleton] at made given numbered
        refine ⟨by rw [List.map_cons, blocks], by rw [made]; simp, ?_, numbered.cons ?_⟩
        · rw [given, settledFrom, List.append_assoc]
          rfl
        · rintro own fetch ⟨⟩

/-- A turn keeps the record. -/
theorem Tracks.pollAt {fetcher : Fetcher (StateM σ) φ}
    {fetches : List (PendingBlock × Progress (Nat × φ))} {events : List FetchEvent}
    (tracks : Tracks waiting fetches events) (place : Nat) (state : σ) :
    let ran := pollAt fetcher.recorded fetches place (state, events)
    Tracks waiting ran.1 ran.2.2 := by
  cases found : fetches[place]? with
  | none =>
    rw [pollAt_of_none found]
    exact tracks
  | some slot =>
    obtain ⟨pending, progress⟩ := slot
    cases progress with
    | settled answer =>
      rw [pollAt_of_settled found]
      exact tracks
    | underWay fetch =>
      obtain ⟨own, fetch⟩ := fetch
      obtain rfl : own = place := by simpa using tracks.numbered place pending own fetch found
      rw [pollAt_of_underWay found]
      have blocks : ∀ progress, (fetches.set own (pending, progress)).map Prod.fst = waiting :=
        fun progress => (map_fst_set found).trans tracks.blocks
      cases polled : fetcher.poll fetch state with
      | mk progress after =>
        cases progress with
        | underWay next =>
          simp only [Fetcher.recorded_poll_underWay polled]
          refine ⟨blocks _, tracks.asked, ?_, tracks.numbered.set ?_⟩
          · rw [settledFrom_set_underWay 0 found]
            exact tracks.answered
          · rintro _ _ ⟨⟩
            exact (Nat.zero_add own).symm
        | settled answer =>
          simp only [Fetcher.recorded_poll_settled polled]
          refine ⟨blocks _, ?_, ?_, tracks.numbered.set ?_⟩
          · rw [requests_append, requests_settled, List.append_nil]
            exact tracks.asked
          · have added := settledFrom_set_settled 0 answer found
            rw [Nat.zero_add] at added
            rw [settlements_append, settlements_settled]
            exact (tracks.answered.append_right _).trans added.symm
          · rintro _ _ ⟨⟩

/-- Turns keep the record. -/
theorem Tracks.turns {fetcher : Fetcher (StateM σ) φ}
    {fetches : List (PendingBlock × Progress (Nat × φ))} {events : List FetchEvent}
    (tracks : Tracks waiting fetches events) (turns : List Nat) (state : σ) :
    let ran := turns.foldlM (Document.pollAt fetcher.recorded) fetches (state, events)
    Tracks waiting ran.1 ran.2.2 := by
  induction turns generalizing fetches state events with
  | nil => exact tracks
  | cons place turns ih => exact ih (tracks.pollAt place state) _

section Settled
variable {fetches : List (PendingBlock × Progress φ)}
  {answers : List (PendingBlock × Except FetchError Text)}

theorem length_settledFrom_le (first : Nat) (fetches : List (PendingBlock × Progress φ)) :
    (settledFrom first fetches).length ≤ fetches.length := by
  induction fetches generalizing first with
  | nil => exact Nat.le_refl 0
  | cons head fetches ih =>
    obtain ⟨pending, progress⟩ := head
    have rest := ih (first + 1)
    cases progress with
    | underWay fetch => exact Nat.le_succ_of_le rest
    | settled answer => exact Nat.succ_le_succ rest

/-- The answers are there as soon as there is one for each fetch. -/
theorem isSome_settledAll?_iff (first : Nat) :
    (settledAll? fetches).isSome ↔ (settledFrom first fetches).length = fetches.length := by
  induction fetches generalizing first with
  | nil => simp [settledAll?, settledFrom]
  | cons head fetches ih =>
    obtain ⟨pending, progress⟩ := head
    cases progress with
    | underWay fetch =>
      have missing : (settledFrom (first + 1) fetches).length ≠ fetches.length + 1 :=
        Nat.ne_of_lt (Nat.lt_succ_of_le (length_settledFrom_le (first + 1) fetches))
      simp [settledAll?, settledFrom, missing]
    | settled answer => simp [settledAll?, settledFrom, ← ih (first + 1)]

/-- Each block has the answer that was noted at its place. -/
theorem settledAll?_eq_some (first : Nat) (settled : settledAll? fetches = some answers) :
    answers.map Prod.fst = fetches.map Prod.fst ∧
      settledFrom first fetches = (answers.map Prod.snd).zipIdx first := by
  induction fetches generalizing first answers with
  | nil =>
    cases settled
    exact ⟨rfl, rfl⟩
  | cons head fetches ih =>
    obtain ⟨pending, progress⟩ := head
    cases progress with
    | underWay fetch => cases settled
    | settled answer =>
      obtain ⟨rest, later, rfl⟩ := Option.map_eq_some_iff.mp settled
      obtain ⟨blocks, given⟩ := ih (first + 1) later
      exact ⟨congrArg (pending :: ·) blocks, congrArg ((answer, first) :: ·) given⟩

end Settled

section Plain

/-- A fetch of a recorded fetcher, without its place. -/
def plain : PendingBlock × Progress (Nat × φ) → PendingBlock × Progress φ
  | (pending, .underWay (_, fetch)) => (pending, .underWay fetch)
  | (pending, .settled answer) => (pending, .settled answer)

theorem startAll_plain (fetcher : Fetcher (StateM σ) φ) (waiting : List PendingBlock) (state : σ)
    (events : List FetchEvent) :
    let ran := startAll fetcher.recorded waiting (state, events)
    startAll fetcher waiting state = (ran.1.map plain, ran.2.1) := by
  induction waiting generalizing state events with
  | nil => rfl
  | cons pending waiting ih =>
    rw [startAll_cons, startAll_cons, Fetcher.recorded_start]
    generalize fetcher.start pending.request state = began
    cases polled : fetcher.poll began.1 began.2 with
    | mk progress after =>
      cases progress with
      | underWay next =>
        simp only [Fetcher.recorded_poll_underWay polled, polled]
        rw [ih after (events ++ [asked pending.request])]
        rfl
      | settled answer =>
        simp only [Fetcher.recorded_poll_settled polled, polled]
        rw [ih after (events ++ [asked pending.request] ++ [settled answer (requests events).length])]
        rfl

theorem pollAt_plain (fetcher : Fetcher (StateM σ) φ)
    (fetches : List (PendingBlock × Progress (Nat × φ))) (place : Nat) (state : σ)
    (events : List FetchEvent) :
    let ran := pollAt fetcher.recorded fetches place (state, events)
    pollAt fetcher (fetches.map plain) place state = (ran.1.map plain, ran.2.1) := by
  have same : (fetches.map plain)[place]? = fetches[place]?.map plain := List.getElem?_map ..
  cases found : fetches[place]? with
  | none =>
    rw [found] at same
    rw [pollAt_of_none found, pollAt_of_none same]
  | some slot =>
    rw [found] at same
    obtain ⟨pending, progress⟩ := slot
    cases progress with
    | settled answer => rw [pollAt_of_settled found, pollAt_of_settled same]
    | underWay fetch =>
      obtain ⟨own, fetch⟩ := fetch
      rw [pollAt_of_underWay found, pollAt_of_underWay same]
      cases polled : fetcher.poll fetch state with
      | mk progress after =>
        cases progress with
        | underWay next =>
          simp only [Fetcher.recorded_poll_underWay polled, List.map_set]
          rfl
        | settled answer =>
          simp only [Fetcher.recorded_poll_settled polled, List.map_set]
          rfl

theorem turns_plain (fetcher : Fetcher (StateM σ) φ) (turns : List Nat)
    (fetches : List (PendingBlock × Progress (Nat × φ))) (state : σ) (events : List FetchEvent) :
    let ran := turns.foldlM (pollAt fetcher.recorded) fetches (state, events)
    turns.foldlM (pollAt fetcher) (fetches.map plain) state = (ran.1.map plain, ran.2.1) := by
  induction turns generalizing fetches state events with
  | nil => rfl
  | cons place turns ih =>
    have step := pollAt_plain fetcher fetches place state events
    rw [turns_cons, turns_cons, step]
    exact ih _ _ _

theorem settledAll?_plain (fetches : List (PendingBlock × Progress (Nat × φ))) :
    settledAll? (fetches.map plain) = settledAll? fetches := by
  induction fetches with
  | nil => rfl
  | cons head fetches ih =>
    obtain ⟨pending, progress⟩ := head
    cases progress with
    | underWay fetch => rfl
    | settled answer => exact congrArg (Option.map ((pending, answer) :: ·)) ih

end Plain

section Rewrite
variable {fetcher : Fetcher (StateM σ) φ} {options : Options} {ranges : List Span} {text : Text}
  {turns : List Nat} {state : σ}

theorem rewriteJoined_of_error {e : RewriteError}
    (malformed : pending options (blocksAt ranges text) = .error e) :
    rewriteJoined fetcher options ranges text turns state = (some (.error e), state) := by
  unfold rewriteJoined
  rw [malformed]
  rfl

theorem rewriteJoined_of_ok
    (isPending : pending options (blocksAt ranges text) = .ok waiting) :
    rewriteJoined fetcher options ranges text turns state =
      let started := startAll fetcher waiting state
      let ran := turns.foldlM (pollAt fetcher) started.1 started.2
      ((settledAll? ran.1).map fun answers =>
        (fillAll options answers).map fun edits => Edit.applyAll edits text, ran.2) := by
  unfold rewriteJoined
  rw [isPending]
  rfl

/-- Fetches that have all settled with a text leave the document edited. -/
theorem rewriteJoined_of_settled {answers : List (PendingBlock × Except FetchError Text)}
    {edits : List Edit} (isPending : pending options (blocksAt ranges text) = .ok waiting)
    (settled : let started := startAll fetcher waiting state
      settledAll? (turns.foldlM (pollAt fetcher) started.1 started.2).1 = some answers)
    (filled : fillAll options answers = .ok edits) :
    (rewriteJoined fetcher options ranges text turns state).1 =
      some (.ok (Edit.applyAll edits text)) := by
  dsimp only at settled
  rw [rewriteJoined_of_ok isPending]
  simp only [settled, filled, Option.map_some, Except.map]

/-- A fetcher is driven in the same way whether it is recorded or not. -/
theorem rewriteJoined_recorded (fetcher : Fetcher (StateM σ) φ) (options : Options)
    (ranges : List Span) (text : Text) (turns : List Nat) (state : σ) (events : List FetchEvent) :
    let ran := rewriteJoined fetcher.recorded options ranges text turns (state, events)
    rewriteJoined fetcher options ranges text turns state = (ran.1, ran.2.1) := by
  cases isPending : pending options (blocksAt ranges text) with
  | error e => rw [rewriteJoined_of_error isPending, rewriteJoined_of_error isPending]
  | ok waiting =>
    rw [rewriteJoined_of_ok isPending, rewriteJoined_of_ok isPending]
    have started := startAll_plain fetcher waiting state events
    have ran := turns_plain fetcher turns (startAll fetcher.recorded waiting (state, events)).1
      (startAll fetcher.recorded waiting (state, events)).2.1
      (startAll fetcher.recorded waiting (state, events)).2.2
    simp only [started, ran, settledAll?_plain]

/-- What a recorded rewrite without a malformed directive comes to. -/
theorem exists_tracked (fetcher : Fetcher (StateM σ) φ) (ranges : List Span) (text : Text)
    (turns : List Nat) (state : σ)
    (isPending : pending options (blocksAt ranges text) = .ok waiting) :
    ∃ fetches : List (PendingBlock × Progress (Nat × φ)),
      let ran := rewriteJoined fetcher.recorded options ranges text turns (state, [])
      Tracks waiting fetches ran.2.2 ∧
        ran.1 = (settledAll? fetches).map fun answers =>
          (fillAll options answers).map fun edits => Edit.applyAll edits text := by
  obtain ⟨blocks, asked, answered, numbered⟩ := startAll_recorded fetcher waiting state []
  have started : Tracks waiting (startAll fetcher.recorded waiting (state, [])).1
      (startAll fetcher.recorded waiting (state, [])).2.2 :=
    ⟨blocks, asked, .of_eq answered, numbered⟩
  rw [rewriteJoined_of_ok isPending]
  exact ⟨_, started.turns turns _, rfl⟩

end Rewrite

end Document
end Transclusion
