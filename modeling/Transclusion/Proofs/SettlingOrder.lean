import Mathlib.Data.List.Forall2
import Transclusion.CommonMark.Structure
import Transclusion.Proofs.JoinedFetches
import Transclusion.Proofs.OwnAnswers

/-! The order in which fetches settle does not matter. Any order can occur, and in each the
document ends as the answers to its blocks, taken in document order, decide. The rewriting
that asks one source after the other is the case in which every fetch settles at once. -/
namespace Transclusion
open FetchEvent

namespace Document
variable {φ : Type}

section AtOnce
variable {m : Type → Type} [Monad m]

/-- The fetches of answers that are there. -/
def settledWith (answers : List (PendingBlock × Except FetchError Text)) :
    List (PendingBlock × Progress φ) :=
  answers.map fun (pending, answer) => (pending, .settled answer)

theorem settledAll?_settledWith (answers : List (PendingBlock × Except FetchError Text)) :
    settledAll? (settledWith (φ := φ) answers) = some answers := by
  induction answers with
  | nil => rfl
  | cons first answers ih =>
    obtain ⟨pending, answer⟩ := first
    exact congrArg (Option.map ((pending, answer) :: ·)) ih

variable [LawfulMonad m]

theorem startAll_atOnce (source : Source m) (waiting : List PendingBlock) :
    startAll (Fetcher.atOnce source) waiting = settledWith <$> fetchAll source waiting := by
  induction waiting with
  | nil => simp [startAll, fetchAll, settledWith]
  | cons pending waiting ih =>
    rw [startAll, fetchAll, ih]
    simp [Fetcher.atOnce, settledWith]

/-- Turns find nothing to do once all fetches have settled. -/
theorem turns_settledWith (fetcher : Fetcher m φ)
    (answers : List (PendingBlock × Except FetchError Text)) (turns : List Nat) :
    turns.foldlM (pollAt fetcher) (settledWith answers) = pure (settledWith answers) := by
  induction turns with
  | nil => rfl
  | cons place turns ih =>
    have idle : pollAt fetcher (settledWith answers) place = pure (settledWith answers) := by
      unfold pollAt settledWith
      rw [List.getElem?_map]
      cases answers[place]? <;> rfl
    rw [List.foldlM_cons, idle, pure_bind, ih]

/-- Asking one source after the other is the case of fetches that settle at once. -/
theorem rewriteJoined_atOnce (source : Source m) (options : Options) (ranges : List Span)
    (text : Text) (turns : List Nat) :
    rewriteJoined (Fetcher.atOnce source) options ranges text turns =
      some <$> rewriteAt source options ranges text := by
  unfold rewriteJoined rewriteAt
  cases pending options (blocksAt ranges text) with
  | error e => simp
  | ok waiting =>
    simp only [startAll_atOnce, bind_map_left, turns_settledWith, pure_bind,
      settledAll?_settledWith, map_bind, map_pure, Option.map_some]

end AtOnce

section Orders
variable {σ : Type}

/-- Fetches at `places` that wait for their second poll. -/
def AwaitPoll (places : List Nat) (fetches : List (PendingBlock × Progress (Nat × Request × Bool))) :
    Prop :=
  ∀ place ∈ places, ∃ pending request, fetches[place]? =
    some (pending, .underWay (place, request, true))

/-- Fetches that wait for their second poll settle in the order of the turns. -/
theorem settlements_turns (source : Source (StateM σ)) {turns : List Nat} (distinct : turns.Nodup)
    {fetches : List (PendingBlock × Progress (Nat × Request × Bool))}
    (awaits : AwaitPoll turns fetches) (state : σ) (events : List FetchEvent) :
    let ran := turns.foldlM (pollAt (Fetcher.atSecondPoll source).recorded) fetches (state, events)
    (settlements ran.2.2).map Prod.snd = (settlements events).map Prod.snd ++ turns := by
  induction turns generalizing fetches state events with
  | nil => exact (List.append_nil _).symm
  | cons place turns ih =>
    obtain ⟨notAgain, distinct⟩ := List.nodup_cons.mp distinct
    obtain ⟨pending, request, found⟩ := awaits place List.mem_cons_self
    have polled : (Fetcher.atSecondPoll source).poll (request, true) state =
      (.settled (source request state).1, (source request state).2) := rfl
    rw [turns_cons, pollAt_of_underWay found]
    simp only [Fetcher.recorded_poll_settled polled]
    rw [ih distinct ?_]
    · simp
    · intro other member
      obtain ⟨otherPending, otherRequest, otherFound⟩ := awaits other (List.mem_cons_of_mem _ member)
      refine ⟨otherPending, otherRequest, ?_⟩
      rw [List.getElem?_set_ne, otherFound]
      rintro rfl
      exact notAgain member

theorem startAll_atSecondPoll (source : Source (StateM σ)) (waiting : List PendingBlock)
    (state : σ) (events : List FetchEvent) :
    let ran := startAll (Fetcher.atSecondPoll source).recorded waiting (state, events)
    settlements ran.2.2 = settlements events ∧
      ∀ place < waiting.length, ∃ pending request, ran.1[place]? =
        some (pending, .underWay ((requests events).length + place, request, true)) := by
  induction waiting generalizing state events with
  | nil => exact ⟨rfl, fun place inside => absurd inside (Nat.not_lt_zero place)⟩
  | cons pending waiting ih =>
    have polled : (Fetcher.atSecondPoll source).poll (pending.request, false) state =
      (.underWay (pending.request, true), state) := rfl
    have began : (Fetcher.atSecondPoll source).start pending.request state =
      ((pending.request, false), state) := rfl
    obtain ⟨none, waits⟩ := ih state (events ++ [asked pending.request])
    rw [startAll_cons, Fetcher.recorded_start, began]
    simp only [Fetcher.recorded_poll_underWay polled]
    refine ⟨none.trans (by simp), fun place inside => ?_⟩
    cases place with
    | zero => exact ⟨pending, pending.request, rfl⟩
    | succ place =>
      obtain ⟨other, request, found⟩ := waits place (Nat.lt_of_succ_lt_succ inside)
      refine ⟨other, request, found.trans ?_⟩
      simp only [requests_append, requests_asked, List.length_append, List.length_singleton]
      rw [Nat.add_right_comm, Nat.add_assoc]

/-- Fetches can settle in any order. -/
theorem settles_in_turn (source : Source (StateM σ)) {options : Options} {ranges : List Span}
    {text : Text} {waiting : List PendingBlock} {turns : List Nat}
    (isPending : pending options (blocksAt ranges text) = .ok waiting) (distinct : turns.Nodup)
    (within : ∀ place ∈ turns, place < waiting.length) (state : σ) :
    (settlements (rewriteJoined (Fetcher.atSecondPoll source).recorded options ranges text turns
      (state, [])).2.2).map Prod.snd = turns := by
  obtain ⟨none, waits⟩ := startAll_atSecondPoll source waiting state []
  have awaits : AwaitPoll turns
      (startAll (Fetcher.atSecondPoll source).recorded waiting (state, [])).1 := by
    intro place member
    have found := waits place (within place member)
    rwa [show (requests []).length + place = place from Nat.zero_add place] at found
  rw [rewriteJoined_of_ok isPending, settlements_turns source distinct awaits, none]
  rfl

end Orders

section Reports
variable {σ : Type}

/-- However the fetches of a document settle: the first malformed directive fails it before
anything is asked for. Without one, every block with a directive is asked for once, in document
order; the document ends once each of these requests has its answer, and then as the answers
of the blocks decide, each block being filled from the answer to its own request. A source that
is asked for one block after the other is the case of fetches that settle at once. -/
theorem rewriteJoined_allOrNothing (fetcher : Fetcher (StateM σ) φ) (options : Options)
    (ranges : List Span) (text : Text) (turns : List Nat) (state : σ) :
    let blocks := blocksAt ranges text
    let ran := rewriteJoined fetcher.recorded options ranges text turns (state, [])
    let events := ran.2.2
    rewriteJoined fetcher options ranges text turns state = (ran.1, ran.2.1) ∧
      (∀ before block after cause, blocks = before ++ block :: after →
        WellFormed options before → reading? options block = some (.error cause) →
          ran = (some (.error (.directive block.line cause)), (state, []))) ∧
      (WellFormed options blocks →
        requests events = (carrying options blocks).map PendingBlock.request ∧
        (ran.1.isSome ↔ (settlements events).length = (carrying options blocks).length) ∧
        ∀ result, ran.1 = some result → ∃ answers,
          answers.length = (carrying options blocks).length ∧
          (settlements events).Perm answers.zipIdx ∧
          Concludes options ranges text ((carrying options blocks).zip answers) result) ∧
      ∀ source : Source (StateM σ),
        rewriteJoined (Fetcher.atOnce source) options ranges text turns =
          some <$> rewriteAt source options ranges text := by
  dsimp only
  refine ⟨rewriteJoined_recorded fetcher options ranges text turns state [], ?_, ?_,
    fun source => rewriteJoined_atOnce source options ranges text turns⟩
  · intro before block after cause found proper malformed
    refine rewriteJoined_of_error ?_
    rw [found]
    exact pending_of_malformed proper malformed
  · intro proper
    obtain ⟨fetches, tracks, came⟩ := exists_tracked fetcher ranges text turns state
      (pending_of_wellFormed proper)
    have count : fetches.length = (carrying options (blocksAt ranges text)).length := by
      rw [← tracks.blocks, List.length_map]
    refine ⟨tracks.asked, ?_, fun result isResult => ?_⟩
    · rw [came, Option.isSome_map, isSome_settledAll?_iff 0, count,
        tracks.answered.length_eq]
    · rw [came] at isResult
      obtain ⟨answered, settled, rfl⟩ := Option.map_eq_some_iff.mp isResult
      obtain ⟨blocks, places⟩ := settledAll?_eq_some 0 settled
      have paired : (carrying options (blocksAt ranges text)).zip (answered.map Prod.snd) =
          answered := (List.zip_of_prod (blocks.trans tracks.blocks) rfl).symm
      refine ⟨answered.map Prod.snd, ?_, places ▸ tracks.answered, ?_⟩
      · rw [List.length_map, ← count, ← List.length_map (f := Prod.fst), blocks, List.length_map]
      · rw [paired]
        exact concludes_fillAll (blocks.trans tracks.blocks)

/-- Four blocks, the second without a directive. -/
def fourBlocks : Text :=
  ("```js url=a\n```\n\n```js\nkept\n```\n\n" ++
    "```js file=b\n```\n\n```js url=c\n```\n").toList

/-- The source of the first block is there, those of the third and the fourth are not. -/
def oneOfThree : Source (StateM Unit) := fun request =>
  pure (Source.table [("a".toList, .ok "x\n".toList),
    ("c".toList, .error (.status "c".toList 404))] request)

/-- All sources are there. That of the third block could close it. -/
def allOfThree : Source (StateM Unit) := fun request =>
  pure (Source.table [("a".toList, .ok "x\n".toList), ("b".toList, .ok "```\ny\n".toList),
    ("c".toList, .ok [])] request)

/-- The last block fails first and the third one last; the third one is reported. Where all
succeed, the answers come in the same order, and each block has its own. -/
theorem rewriteJoined_allOrNothing_lastFirst :
    let ranges : List Span := [⟨0, 15⟩, ⟨17, 31⟩, ⟨33, 49⟩, ⟨51, 66⟩]
    let waiting := carrying .standard (blocksAt ranges fourBlocks)
    let failed := rewriteJoined (Fetcher.atSecondPoll oneOfThree).recorded .standard ranges
      fourBlocks [2, 0, 1] ((), [])
    let filled := rewriteJoined (Fetcher.atSecondPoll allOfThree).recorded .standard ranges
      fourBlocks [2, 0, 1] ((), [])
    let out := ("```js url=a\nx\n```\n\n```js\nkept\n```\n\n" ++
      "````js file=b\n```\ny\n````\n\n```js url=c\n```\n").toList
    CommonMark.fencedRanges fourBlocks = ranges ∧ RangesInOrder fourBlocks ranges ∧
      (requests failed.2.2 =
          [⟨.web, "a".toList⟩, ⟨.file, "b".toList⟩, ⟨.web, "c".toList⟩] ∧
        (settlements failed.2.2).map Prod.snd = [2, 0, 1] ∧
        failed.1 = some (.error (.fetch 8 (.notFound "b".toList)))) ∧
      settlements filled.2.2 =
        [(.ok [], 2), (.ok "x\n".toList, 0), (.ok "```\ny\n".toList, 1)] ∧
      filled.1 = some (.ok out) ∧
      ∃ answers, answers.length = waiting.length ∧
        (settlements filled.2.2).Perm answers.zipIdx ∧
        Concludes .standard ranges fourBlocks (waiting.zip answers) (.ok out) := by
  intro ranges waiting failed filled out
  have proper : WellFormed .standard (blocksAt ranges fourBlocks) := by decide +kernel
  have ordered : RangesInOrder fourBlocks ranges := by decide +kernel
  have result : filled.1 = some (.ok out) := by
    let fetcher := (Fetcher.atSecondPoll allOfThree).recorded
    let started := startAll fetcher waiting ((), [])
    let fetches := ([2, 0, 1].foldlM (pollAt fetcher) started.1 started.2).1
    let answers : List (Except FetchError Text) :=
      [.ok "x\n".toList, .ok "```\ny\n".toList, .ok []]
    let edits : List Edit := [⟨⟨12, 12⟩, "x\n".toList⟩, ⟨⟨46, 46⟩, "```\ny\n".toList⟩,
      ⟨⟨33, 36⟩, "````".toList⟩, ⟨⟨46, 49⟩, "````".toList⟩, ⟨⟨63, 63⟩, []⟩]
    let sorted : List Edit := [⟨⟨12, 12⟩, "x\n".toList⟩, ⟨⟨33, 36⟩, "````".toList⟩,
      ⟨⟨46, 46⟩, "```\ny\n".toList⟩, ⟨⟨46, 49⟩, "````".toList⟩, ⟨⟨63, 63⟩, []⟩]
    have settled : settledAll? fetches = some (waiting.zip answers) := by decide +kernel
    have made : fillAll .standard (waiting.zip answers) = .ok edits := by decide +kernel
    have inOrder : Edit.InOrder sorted := by decide
    have applied : Edit.applyAll edits fourBlocks = out :=
      (Edit.applyAll_eq_splice inOrder (by decide +kernel) (by decide)).trans (by decide +kernel)
    have ran : (rewriteJoined fetcher .standard ranges fourBlocks [2, 0, 1] ((), [])).1 =
        some (.ok (Edit.applyAll edits fourBlocks)) :=
      rewriteJoined_of_settled (pending_of_wellFormed proper) settled made
    rwa [applied] at ran
  have reported := ((rewriteJoined_allOrNothing (Fetcher.atSecondPoll allOfThree) .standard ranges
    fourBlocks [2, 0, 1] ()).2.2.1 proper).2.2 _ result
  -- The run gets its name back, or comparing the two would evaluate it.
  have same : filled = rewriteJoined (Fetcher.atSecondPoll allOfThree).recorded .standard ranges
    fourBlocks [2, 0, 1] ((), []) := rfl
  rw [← same] at reported
  exact ⟨by decide +kernel, ordered,
    ⟨by decide +kernel, by decide +kernel, by decide +kernel⟩, by decide +kernel, result, reported⟩

end Reports

end Document
end Transclusion
