import Transclusion.Proofs.Rendering
import Transclusion.Proofs.WrittenDocuments

/-! What a run in place leaves. All documents are rewritten before any is written, so each ends
as the rewrite of what it was, against the files as they were, whatever else is written. -/
namespace Transclusion

namespace Run
variable {scan : Scanner} {world after : World} {line : CommandLine} {config : Config} {path : Text}
  {rendered : List Rendered} {document : Rendered}

/-- A document leads to the file that holds it. -/
theorem Renders.exists_real (renders : Renders scan world line config path document) :
    ∃ real, world.tree.realPath world.here path = .ok real ∧
      world.tree.textAt real = .ok document.before := by
  have read := renders.read
  unfold FileTree.read at read
  split at read
  · cases read
  · next real found => exact ⟨real, found, read⟩

theorem Renders.textAt (renders : Renders scan world line config path document) {real : RealPath}
    (leads : world.tree.realPath world.here path = .ok real) :
    world.tree.textAt real = .ok document.before := by
  obtain ⟨own, found, read⟩ := renders.exists_real
  obtain rfl : own = real := Except.ok.inj (found.symm.trans leads)
  exact read

theorem Renders.namesFile (renders : Renders scan world line config path document) :
    World.NamesFile world document.path := by
  obtain ⟨real, found, read⟩ := renders.exists_real
  rw [renders.path_eq]
  exact ⟨real, .text document.before, found, FileTree.textAt_eq_ok_iff.mp read⟩

theorem after_eq_before (unchanged : ¬ document.changed = true) :
    document.after = document.before := by
  simpa [Rendered.changed] using unchanged

/-- What a run in place writes. -/
def writes (rendered : List Rendered) : List (Text × Text) :=
  (rendered.filter Rendered.changed).map fun document => (document.path, document.after)

theorem exists_afterWrites (distinct : World.Distinct world line.files)
    (each : List.Forall₂ (Renders scan world line config) line.files rendered) :
    ∃ after, writeAll world (writes rendered) = (none, after) ∧
      World.Written world (writes rendered) after := by
  apply World.exists_written
  · have written : (writes rendered).map Prod.fst =
        (rendered.filter Rendered.changed).map Rendered.path := by
      simp [writes, Function.comp_def]
    have among : ((writes rendered).map Prod.fst).Sublist line.files := by
      rw [written, ← paths_eq each]
      exact List.filter_sublist.map Rendered.path
    exact (among.map _).nodup distinct
  · intro write member
    obtain ⟨document, changed, rfl⟩ := List.mem_map.mp member
    obtain ⟨path, -, renders⟩ := exists_of_rendered each (List.mem_of_mem_filter changed)
    exact renders.namesFile

section After
variable (distinct : World.Distinct world line.files)
  (each : List.Forall₂ (Renders scan world line config) line.files rendered)
  (written : World.Written world (writes rendered) after)
include distinct each written

/-- A document holds what it is rewritten to, whether it had to be written or not. -/
theorem textAt_after (listed : path ∈ line.files)
    (renders : Renders scan world line config path document) {real : RealPath}
    (leads : world.tree.realPath world.here path = .ok real) :
    after.tree.textAt real = .ok document.after := by
  have member : document ∈ rendered := by
    obtain ⟨own, member, ownRenders⟩ := exists_of_listed each listed
    rwa [renders.unique ownRenders]
  by_cases changed : document.changed = true
  · refine written.texts (document.path, document.after) ?_ real (by rw [renders.path_eq, leads])
    exact List.mem_map_of_mem (List.mem_filter.mpr ⟨member, changed⟩)
  -- No two documents are one file, so an unchanged one is not written through another path.
  · rw [written.others real ?_]
    · rw [after_eq_before changed]
      exact renders.textAt leads
    · intro write isWrite same
      obtain ⟨other, isOther, rfl⟩ := List.mem_map.mp isWrite
      obtain ⟨otherMember, otherChanged⟩ := List.mem_filter.mp isOther
      obtain ⟨otherPath, otherListed, otherRenders⟩ := exists_of_rendered each otherMember
      dsimp only at same
      rw [otherRenders.path_eq, ← leads] at same
      obtain rfl := List.inj_on_of_nodup_map distinct otherListed listed same
      exact changed (renders.unique otherRenders ▸ otherChanged)

theorem read_after (listed : path ∈ line.files)
    (renders : Renders scan world line config path document) :
    after.tree.read after.here path = .ok document.after := by
  obtain ⟨real, leads, -⟩ := renders.exists_real
  unfold FileTree.read
  rw [written.alike.realPath_eq, leads]
  exact textAt_after distinct each written listed renders leads

end After

section Modes
variable {world : World} {line : CommandLine}

theorem run_of_error {e : Failure} (failed : prepare scan world.host line = Except.error e) :
    runWith scan world line = ⟨.error e, [], world⟩ := by
  unfold runWith
  simp only [failed]

variable (prepared : prepare scan world.host line = Except.ok rendered)
include prepared

theorem run_of_check (check : line.check = true) :
    runWith scan world line =
      ⟨.ok (.ofStale ((rendered.filter Rendered.changed).map Rendered.path)), [], world⟩ := by
  unfold runWith
  simp only [prepared, effect, check, if_true, writeAll]

theorem run_of_neither (noCheck : line.check = false) (notInPlace : line.inPlace = false) :
    runWith scan world line = ⟨.ok .upToDate, (rendered.map Rendered.after).flatten, world⟩ := by
  unfold runWith
  simp [prepared, effect, noCheck, notInPlace, writeAll, Outcome.ofStale]

/-- A run in place writes what it has to, and no write fails. -/
theorem exists_run_inPlace (noCheck : line.check = false) (inPlace : line.inPlace = true)
    (distinct : World.Distinct world line.files) :
    ∃ after, runWith scan world line = ⟨.ok .upToDate, [], after⟩ ∧
      World.Written world (writes rendered) after := by
  obtain ⟨config, -, each⟩ := prepare_eq_ok_iff.mp prepared
  obtain ⟨after, wrote, written⟩ := exists_afterWrites distinct each
  have effect_eq : effect line rendered = ⟨[], [], writes rendered⟩ := by
    simp [effect, inPlace, noCheck, writes]
  refine ⟨after, ?_, written⟩
  unfold runWith
  simp only [prepared, effect_eq, wrote, Outcome.ofStale]

/-- A run whose documents could be rendered succeeds. -/
theorem exists_outcome (distinct : World.Distinct world line.files) :
    ∃ outcome, (runWith scan world line).outcome = .ok outcome := by
  cases check : line.check with
  | true => exact ⟨_, by rw [run_of_check prepared check]⟩
  | false =>
    cases inPlace : line.inPlace with
    | false => exact ⟨_, by rw [run_of_neither prepared check inPlace]⟩
    | true =>
      obtain ⟨after, ran, -⟩ := exists_run_inPlace prepared check inPlace distinct
      exact ⟨_, by rw [ran]⟩

/-- Only a run in place writes. -/
theorem world_of_run (still : line.check = true ∨ line.inPlace = false) :
    (runWith scan world line).world = world := by
  cases check : line.check with
  | true => rw [run_of_check prepared check]
  | false =>
    have notInPlace : line.inPlace = false := by simpa [check] using still
    rw [run_of_neither prepared check notInPlace]

/-- Documents that are there and in different files are all in different files, once each of
them could be rendered. -/
theorem distinct_of_apart (apart : World.Apart world line.files) :
    World.Distinct world line.files := by
  obtain ⟨config, -, each⟩ := prepare_eq_ok_iff.mp prepared
  refine List.pairwise_map.mpr (apart.imp_of_mem fun {path other} listed _ different => ?_)
  obtain ⟨document, -, renders⟩ := exists_of_listed each listed
  obtain ⟨real, found, -⟩ := renders.exists_real
  exact different (by rw [FileTree.isThere, found]; rfl)

end Modes

/-- Some files in the root folder. -/
def filesAtRoot (files : List (String × String)) : World where
  tree := ⟨files.map fun (name, text) => ([name.toList], .file (.text text.toList))⟩
  here := []
  web := Web.offline
  environment := ⟨[], ['/']⟩

/-- A run in place over some documents. -/
def inPlaceOver (files : List String) : CommandLine :=
  { CommandLine.empty with files := files.map String.toList, inPlace := true }

/-- Two documents that read the same file; the first is out of date. -/
def sharing : World := filesAtRoot [("a.md", "```text file=s.txt\nold\n```\n"),
  ("b.md", "```text file=s.txt\nnew\n```\n"), ("s.txt", "new\n")]

end Run
end Transclusion
