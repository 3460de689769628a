import Transclusion.Proofs.Snapshot

/-! The modes of a run agree, as each acts on the same rewritten documents: a check names what
a run in place changes, and a run in neither mode prints what one in place leaves. -/
namespace Transclusion

namespace CommandLine

/-- The same documents and options, to report which are out of date. -/
def checking (line : CommandLine) : CommandLine := { line with check := true, inPlace := false }

/-- The same documents and options, to write the results back. -/
def writing (line : CommandLine) : CommandLine := { line with check := false, inPlace := true }

/-- The same documents and options, to print the results. -/
def printing (line : CommandLine) : CommandLine := { line with check := false, inPlace := false }

end CommandLine

namespace Run
variable {scan : Scanner} {world after : World} {line : CommandLine} {config : Config} {path : Text}
  {rendered : List Rendered} {document : Rendered}

theorem ofStale_eq_upToDate_iff (paths : List Text) :
    Outcome.ofStale paths = .upToDate ↔ paths = [] := by
  cases paths with
  | nil => simp [Outcome.ofStale]
  | cons path paths => simp [Outcome.ofStale]

/-- The path does not read as it did before. -/
def ReadsAnew (world after : World) (path : Text) : Prop :=
  after.tree.read after.here path ≠ world.tree.read world.here path

instance (world after : World) (path : Text) : Decidable (ReadsAnew world after path) :=
  inferInstanceAs (Decidable (_ ≠ _))

/-- Nothing reads anew where all files are as they were. -/
theorem not_readsAnew (alike : World.Alike world after)
    (same : after.tree.node? = world.tree.node?) : ¬ ReadsAnew world after path := by
  unfold ReadsAnew FileTree.read
  rw [alike.realPath_eq]
  unfold FileTree.textAt
  rw [same]
  exact fun different => different rfl

section After
variable (distinct : World.Distinct world line.files)
  (each : List.Forall₂ (Renders scan world line config) line.files rendered)
  (written : World.Written world (writes rendered) after)
include distinct each written

theorem readsAnew_iff (listed : path ∈ line.files)
    (renders : Renders scan world line config path document) :
    ReadsAnew world after path ↔ document.changed = true := by
  unfold ReadsAnew
  rw [read_after distinct each written listed renders, renders.read]
  simp [Rendered.changed]

/-- The documents a check reports are those that a run in place changes. -/
theorem changed_eq_readsAnew :
    (rendered.filter Rendered.changed).map Rendered.path =
      line.files.filter fun path => ReadsAnew world after path := by
  rw [← paths_eq each, List.filter_map]
  refine congrArg _ (List.filter_congr fun document member => ?_)
  obtain ⟨path, listed, renders⟩ := exists_of_rendered each member
  have anew := readsAnew_iff distinct each written listed renders
  rw [← renders.path_eq] at anew
  exact Bool.eq_iff_iff.mpr (by simpa using anew.symm)

/-- What the documents are rewritten to is what a run in place leaves in them. -/
theorem reads_after :
    List.Forall₂ (fun path text => after.tree.read after.here path = .ok text) line.files
      (rendered.map Rendered.after) := by
  rw [← paths_eq each, List.forall₂_map_left_iff, List.forall₂_map_right_iff, List.forall₂_same]
  intro document member
  obtain ⟨path, listed, renders⟩ := exists_of_rendered each member
  rw [renders.path_eq]
  exact read_after distinct each written listed renders

end After

/-- The modes of a run over documents that could all be rewritten. -/
structure Agree (scan : Scanner) (world : World) (line : CommandLine) : Prop where
  written : (runWith scan world line.writing).outcome = .ok .upToDate
  shown : (runWith scan world line.printing).outcome = .ok .upToDate
  /-- A check reports what a run in place changes, in the order of the command line. -/
  checked : (runWith scan world line.checking).outcome =
    .ok (.ofStale (line.files.filter fun path =>
      ReadsAnew world (runWith scan world line.writing).world path))
  upToDate_iff : (runWith scan world line.checking).outcome = .ok .upToDate ↔
    (runWith scan world line.writing).world.tree.node? = world.tree.node?
  /-- What is printed is what a run in place leaves in the documents, in the same order. -/
  printed : ∃ texts, List.Forall₂ (fun path text =>
      (runWith scan world line.writing).world.tree.read
        (runWith scan world line.writing).world.here path = .ok text) line.files texts ∧
    (runWith scan world line.printing).printed = texts.flatten

theorem agree_of_prepared (distinct : World.Distinct world line.files)
    (prepared : prepare scan world.host line = Except.ok rendered) : Agree scan world line := by
  obtain ⟨config, -, each⟩ := prepare_eq_ok_iff.mp prepared
  have preparedChecking : prepare scan world.host line.checking = Except.ok rendered := prepared
  have preparedWriting : prepare scan world.host line.writing = Except.ok rendered := prepared
  have preparedPrinting : prepare scan world.host line.printing = Except.ok rendered := prepared
  have checked := run_of_check preparedChecking rfl
  have shown := run_of_neither preparedPrinting rfl rfl
  obtain ⟨after, wrote, written⟩ := exists_run_inPlace preparedWriting rfl rfl distinct
  have reported := changed_eq_readsAnew distinct each written
  refine ⟨by rw [wrote], by rw [shown], ?_, ?_, ?_⟩
  · rw [checked, wrote, reported]
  · rw [checked, wrote, Except.ok.injEq, ofStale_eq_upToDate_iff]
    constructor
    · intro none
      have unwritten : writes rendered = [] := by simpa [writes] using none
      rw [unwritten] at written
      exact funext fun real => written.kept real (by simp)
    · intro same
      rw [reported, List.filter_eq_nil_iff]
      intro path _
      simpa using not_readsAnew written.alike same
  · rw [shown, wrote]
    exact ⟨_, reads_after distinct each written, rfl⟩

/-- From the same surroundings a run fails with the same error in each mode, or the modes
agree. -/
theorem modes_agree (scan : Scanner) (world : World) (line : CommandLine)
    (apart : World.Apart world line.files) :
    (∃ e, (runWith scan world line.checking).outcome = .error e ∧
        (runWith scan world line.writing).outcome = .error e ∧
        (runWith scan world line.printing).outcome = .error e) ∨
      Agree scan world line := by
  cases prepared : prepare scan world.host line with
  | error e =>
    have failedChecking : prepare scan world.host line.checking = Except.error e := prepared
    have failedWriting : prepare scan world.host line.writing = Except.error e := prepared
    have failedPrinting : prepare scan world.host line.printing = Except.error e := prepared
    refine .inl ⟨e, ?_, ?_, ?_⟩
    · rw [run_of_error failedChecking]
    · rw [run_of_error failedWriting]
    · rw [run_of_error failedPrinting]
  | ok rendered => exact .inr (agree_of_prepared (distinct_of_apart prepared apart) prepared)

/-- A check reports the first document only, which is the one that a run in place changes. -/
theorem modes_agree_sharing :
    (run sharing (inPlaceOver ["a.md", "b.md"]).checking).outcome =
        .ok (.stale ["a.md".toList]) ∧
      Agree CommonMark.fencedRanges sharing (inPlaceOver ["a.md", "b.md"]) := by
  have checked : (run sharing (inPlaceOver ["a.md", "b.md"]).checking).outcome =
      .ok (.stale ["a.md".toList]) := by decide +kernel
  have agree := modes_agree CommonMark.fencedRanges sharing (inPlaceOver ["a.md", "b.md"])
    (by decide +kernel)
  refine ⟨checked, agree.resolve_left ?_⟩
  rintro ⟨e, failed, -⟩
  cases checked.symm.trans failed

end Run
end Transclusion
