import Mathlib.Data.List.Perm.Basic
import Transclusion.Proofs.Snapshot

/-! A run is all or nothing. A run that fails has printed and changed nothing, wherever in the
list the failure was; one that succeeds has rewritten every document from the files as they
were, so the order of the documents does not matter, even where they include each other. -/
namespace Transclusion.Run
variable {scan : Scanner} {world after : World} {line : CommandLine} {config : Config}
  {rendered : List Rendered} {files : List Text}

/-- What a run in place leaves: each listed document holds the rewrite of what it held,
against the files as they were, and nothing else has changed. -/
structure Snapshot (scan : Scanner) (world : World) (line : CommandLine) (after : World) : Prop where
  documents : ∀ path ∈ line.files, ∃ config document,
    Run.config world.host line = Except.ok config ∧ Renders scan world line config path document ∧
      after.tree.read after.here path = .ok document.after
  others : ∀ real, (∀ path ∈ line.files, world.tree.realPath world.here path ≠ .ok real) →
    after.tree.node? real = world.tree.node? real

theorem snapshot_of_written (distinct : World.Distinct world line.files)
    (isConfig : Run.config world.host line = Except.ok config)
    (each : List.Forall₂ (Renders scan world line config) line.files rendered)
    (written : World.Written world (writes rendered) after) : Snapshot scan world line after where
  documents := by
    intro path listed
    obtain ⟨document, -, renders⟩ := exists_of_listed each listed
    exact ⟨config, document, isConfig, renders, read_after distinct each written listed renders⟩
  others := by
    intro real elsewhere
    refine written.kept real fun write isWrite => ?_
    obtain ⟨document, isRendered, rfl⟩ := List.mem_map.mp isWrite
    obtain ⟨path, listed, renders⟩ :=
      exists_of_rendered each (List.mem_of_mem_filter isRendered)
    rw [renders.path_eq]
    exact elsewhere path listed

/-- Documents in another order are rendered to the same, in that order. -/
theorem prepare_perm (perm : files.Perm line.files)
    (prepared : prepare scan world.host line = Except.ok rendered) :
    ∃ others, others.Perm rendered ∧
      prepare scan world.host { line with files := files } = Except.ok others := by
  obtain ⟨config, isConfig, each⟩ := prepare_eq_ok_iff.mp prepared
  obtain ⟨others, eachOther, same⟩ := List.perm_comp_forall₂ perm each
  exact ⟨others, same, prepare_eq_ok_iff.mpr ⟨config, isConfig, eachOther.imp
    fun _ _ renders => ⟨renders.path_eq, renders.read, renders.rewritten⟩⟩⟩

/-- Documents in another order fail too, if perhaps for another one of them. -/
theorem exists_error_perm {e : Failure} (perm : files.Perm line.files)
    (failed : prepare scan world.host line = Except.error e) :
    ∃ other, prepare scan world.host { line with files := files } = Except.error other := by
  cases prepared : prepare scan world.host { line with files := files } with
  | error other => exact ⟨other, rfl⟩
  | ok rendered =>
    obtain ⟨others, -, again⟩ := prepare_perm perm.symm prepared
    cases failed.symm.trans again

theorem mem_writes_iff {others : List Rendered} (perm : others.Perm rendered)
    (write : Text × Text) : write ∈ writes others ↔ write ∈ writes rendered :=
  ((perm.filter _).map _).mem_iff

/-- What is left does not depend on the order in which the documents were rewritten. -/
theorem run_perm_of_prepared {others : List Rendered} (same : others.Perm rendered)
    (distinct : World.Distinct world line.files) (distinctOther : World.Distinct world files)
    (prepared : prepare scan world.host line = Except.ok rendered)
    (preparedOther : prepare scan world.host { line with files := files } = Except.ok others) :
    (runWith scan world { line with files := files }).world.tree.node? =
      (runWith scan world line).world.tree.node? := by
  -- Only a run in place leaves anything behind, and what it writes is a set of documents.
  by_cases writing : line.check = false ∧ line.inPlace = true
  · obtain ⟨noCheck, inPlace⟩ := writing
    obtain ⟨after, ran, written⟩ := exists_run_inPlace prepared noCheck inPlace distinct
    obtain ⟨afterOther, ranOther, writtenOther⟩ :=
      exists_run_inPlace preparedOther noCheck inPlace distinctOther
    rw [ran, ranOther]
    exact writtenOther.node?_eq written (mem_writes_iff same)
  · have still : line.check = true ∨ line.inPlace = false := by
      simpa only [not_and_or, Bool.not_eq_false, Bool.not_eq_true] using writing
    rw [world_of_run prepared still, world_of_run preparedOther still]

theorem world_of_not_inPlace (notInPlace : line.inPlace = false) :
    (runWith scan world line).world = world := by
  cases prepared : prepare scan world.host line with
  | error e => rw [run_of_error prepared]
  | ok rendered => exact world_of_run prepared (Or.inr notInPlace)

section Apart
variable (apart : World.Apart world line.files)
include apart

/-- A run fails only before it acts. -/
theorem run_of_failed {e : Failure} (failed : (runWith scan world line).outcome = .error e) :
    runWith scan world line = ⟨.error e, [], world⟩ := by
  cases prepared : prepare scan world.host line with
  | error cause =>
    rw [run_of_error prepared] at failed ⊢
    cases failed
    rfl
  | ok rendered =>
    obtain ⟨outcome, succeeded⟩ := exists_outcome prepared (distinct_of_apart prepared apart)
    cases succeeded.symm.trans failed

theorem snapshot_of_run {outcome : Outcome} (inPlace : line.inPlace = true)
    (noCheck : line.check = false) (succeeded : (runWith scan world line).outcome = .ok outcome) :
    Snapshot scan world line (runWith scan world line).world := by
  cases prepared : prepare scan world.host line with
  | error e =>
    rw [run_of_error prepared] at succeeded
    cases succeeded
  | ok rendered =>
    have distinct := distinct_of_apart prepared apart
    obtain ⟨config, isConfig, each⟩ := prepare_eq_ok_iff.mp prepared
    obtain ⟨after, ran, written⟩ := exists_run_inPlace prepared noCheck inPlace distinct
    rw [ran]
    exact snapshot_of_written distinct isConfig each written

theorem run_perm (perm : files.Perm line.files) :
    (runWith scan world { line with files := files }).outcome.isOk =
        (runWith scan world line).outcome.isOk ∧
      (runWith scan world { line with files := files }).world.tree.node? =
        (runWith scan world line).world.tree.node? := by
  cases prepared : prepare scan world.host line with
  | error e =>
    obtain ⟨other, failed⟩ := exists_error_perm perm prepared
    rw [run_of_error prepared, run_of_error failed]
    exact ⟨rfl, rfl⟩
  | ok rendered =>
    obtain ⟨others, same, preparedOther⟩ := prepare_perm perm prepared
    have distinct := distinct_of_apart prepared apart
    have distinctOther : World.Distinct world files := (perm.map _).nodup_iff.mpr distinct
    obtain ⟨outcome, succeeded⟩ := exists_outcome prepared distinct
    obtain ⟨outcomeOther, succeededOther⟩ := exists_outcome preparedOther distinctOther
    refine ⟨by rw [succeeded, succeededOther]; rfl, ?_⟩
    exact run_perm_of_prepared same distinct distinctOther prepared preparedOther

end Apart

/-- A run that fails leaves no trace, one that is not in place changes no file, and one in
place that succeeds leaves a snapshot; in which order the documents are listed changes neither
whether a run succeeds nor what it leaves. -/
theorem run_atomic (scan : Scanner) (world : World) (line : CommandLine)
    (apart : World.Apart world line.files) :
    (∀ e, (runWith scan world line).outcome = .error e →
        (runWith scan world line).printed = [] ∧ (runWith scan world line).world = world) ∧
      (line.inPlace = false → (runWith scan world line).world = world) ∧
      (∀ outcome, line.inPlace = true → line.check = false →
        (runWith scan world line).outcome = .ok outcome →
          Snapshot scan world line (runWith scan world line).world) ∧
      ∀ files : List Text, files.Perm line.files →
        (runWith scan world { line with files := files }).outcome.isOk =
          (runWith scan world line).outcome.isOk ∧
        (runWith scan world { line with files := files }).world.tree.node? =
          (runWith scan world line).world.tree.node? := by
  refine ⟨fun e failed => ?_, world_of_not_inPlace,
    fun outcome inPlace noCheck => snapshot_of_run apart inPlace noCheck,
    fun files => run_perm apart⟩
  rw [run_of_failed apart failed]
  exact ⟨rfl, rfl⟩

/-- Two documents that each read the first line of the other one's block. -/
def entwined : World := filesAtRoot [("a.md", "```text file=b.md#L2\nold\n```\n"),
  ("b.md", "```text file=a.md#L2\nnew\n```\n")]

/-- The documents trade their lines, in either order, and not even the first is touched where a
third one is not there. -/
theorem run_atomic_entwined :
    Snapshot CommonMark.fencedRanges entwined (inPlaceOver ["a.md", "b.md"])
        (run entwined (inPlaceOver ["a.md", "b.md"])).world ∧
      (run entwined (inPlaceOver ["b.md", "a.md"])).world.tree.node? =
        (run entwined (inPlaceOver ["a.md", "b.md"])).world.tree.node? ∧
      (run entwined (inPlaceOver ["a.md", "b.md", "c.md"])).printed = [] ∧
      (run entwined (inPlaceOver ["a.md", "b.md", "c.md"])).world = entwined := by
  obtain ⟨-, -, snapshot, permuted⟩ :=
    run_atomic CommonMark.fencedRanges entwined (inPlaceOver ["a.md", "b.md"]) (by decide +kernel)
  obtain ⟨failed, -⟩ :=
    run_atomic CommonMark.fencedRanges entwined (inPlaceOver ["a.md", "b.md", "c.md"])
      (by decide +kernel)
  exact ⟨snapshot .upToDate rfl rfl (by decide +kernel), (permuted _ (.swap _ _ _)).2,
    failed (.document (.notFound "c.md".toList)) (by decide +kernel)⟩

end Transclusion.Run
