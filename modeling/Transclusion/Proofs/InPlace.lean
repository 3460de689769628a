import Transclusion.Proofs.Idempotence
import Transclusion.Proofs.Snapshot

/-! Runs in place, and what a check finds after one. All documents are rewritten before any
is written, so a document that another one reads is read as it was: the check then reads
the new text, and the other document is out of date. Where no written document is read by
a run, every document is up to date after it. -/
namespace Transclusion

namespace Run
variable {scan : Scanner} {world : World} {line : CommandLine} {config : Config} {path : Text}

/-- A document that a run finds out of date. -/
def Changes (scan : Scanner) (world : World) (line : CommandLine) (document : Rendered) : Prop :=
  ∃ rendered, prepare scan world.host line = Except.ok rendered ∧ document ∈ rendered ∧
    document.changed = true

/-- What a document asks for. -/
def requests (scan : Scanner) (world : World) (line : CommandLine) (config : Config)
    (path : Text) : List Request :=
  match world.tree.read world.here path with
  | .error _ => []
  | .ok text =>
    match Document.pending (line.options config) (Document.blocksAt (scan text) text) with
    | .error _ => []
    | .ok waiting => waiting.map PendingBlock.request

/-- A request for the sake of a document of a run. -/
def Asks (scan : Scanner) (world : World) (line : CommandLine) (path : Text)
    (request : Request) : Prop :=
  ∃ config, Run.config world.host line = Except.ok config ∧ path ∈ line.files ∧
    request ∈ requests scan world line config path

/-- No document that is out of date is read for another purpose: neither as a source nor as
the configuration. -/
structure ReadsNoChange (scan : Scanner) (world : World) (line : CommandLine) : Prop where
  sources : ∀ path request, Asks scan world line path request →
    ∀ document, Changes scan world line document →
      world.tree.realPath world.here (Path.join (Path.directory path) request.locator) ≠
        world.tree.realPath world.here document.path
  config : ∀ document, Changes scan world line document →
    world.tree.realPath world.here (line.config.getD (Config.defaultPath world.host)) ≠
      world.tree.realPath world.here document.path

/-- In a document that is out of date the blocks come in order, and the scanner finds the
same ones in what it is rewritten to. -/
def FindsBlocksAgain (scan : Scanner) (world : World) (line : CommandLine) : Prop :=
  ∀ config document, Run.config world.host line = Except.ok config →
    Changes scan world line document →
      RangesInOrder document.before (scan document.before) ∧
      Document.FindsFilledBlocks scan
        (sources world line config document.path) (line.options config) document.before

/-- What a document is found to be after it was written. -/
def settled (document : Rendered) : Rendered := ⟨document.path, document.after, document.after⟩

section Again
variable {other : World} {rendered : List Rendered} {document : Rendered}

/-- Files that hold the same give a document the same answers. -/
theorem sources_agree (alike : World.Alike world other)
    (isConfig : Run.config world.host line = Except.ok config) (listed : path ∈ line.files)
    (renders : Renders scan world line config path document)
    (files : ∀ path request, Asks scan world line path request → request.kind = .file)
    (same : ∀ path request, Asks scan world line path request →
      World.SameText world other (Path.join (Path.directory path) request.locator)) :
    Document.Agree (line.options config) (scan document.before) document.before
      (sources world line config path) (sources other line config path) := by
  intro waiting isPending pending member
  have asks : Asks scan world line path pending.request := by
    refine ⟨config, isConfig, listed, ?_⟩
    unfold requests
    simp only [renders.read, isPending]
    exact List.mem_map_of_mem member
  have isFile := files path _ asks
  simp only [sources, LocalSource.orWeb, isFile, alike.here_eq]
  exact alike.fetch_eq (same path _ asks)

/-- A document that was out of date and was written is rewritten to itself. -/
theorem Renders.settled_of_written (renders : Renders scan world line config path document)
    (alike : World.Alike world other)
    (ordered : RangesInOrder document.before (scan document.before))
    (found : Document.FindsFilledBlocks scan (sources world line config path)
      (line.options config) document.before)
    (agree : Document.Agree (line.options config) (scan document.before)
      document.before (sources world line config path) (sources other line config path))
    (written : ∀ real, world.tree.realPath world.here path = .ok real →
      other.tree.textAt real = .ok document.after) :
    Renders scan other line config path (settled document) where
  path_eq := renders.path_eq
  read := by
    obtain ⟨real, -, leads, -⟩ := renders.namesFile
    rw [renders.path_eq] at leads
    unfold FileTree.read
    rw [alike.realPath_eq, leads]
    exact written real leads
  rewritten := by
    have rewritten := renders.rewritten
    unfold Document.rewriteWith at rewritten ⊢
    obtain ⟨edits, made, after⟩ := Document.exists_edits rewritten
    simp only [settled]
    rw [after, found edits made]
    exact Document.rewriteAt_again ordered made agree

/-- A document that was as it should be stays so, as long as nothing it reads changes. -/
theorem Renders.settled_of_unchanged (renders : Renders scan world line config path document)
    (alike : World.Alike world other) (unchanged : ¬ document.changed = true)
    (agree : Document.Agree (line.options config) (scan document.before)
      document.before (sources world line config path) (sources other line config path))
    (same : World.SameText world other path) :
    Renders scan other line config path (settled document) := by
  have same_after := after_eq_before unchanged
  have rewritten := renders.rewritten
  have read := renders.read
  unfold Document.rewriteWith at rewritten
  rw [← agree.rewriteAt_eq] at rewritten
  rw [← alike.read_eq same] at read
  refine ⟨renders.path_eq, ?_, ?_⟩
  · simp only [settled, same_after]
    exact read
  · unfold Document.rewriteWith
    simp only [settled, same_after] at rewritten ⊢
    exact rewritten

/-- After the writes, every document is found as it should be. -/
theorem renders_settled (web : Web) {after : World}
    (isConfig : Run.config world.host line = Except.ok config)
    (each : List.Forall₂ (Renders scan world line config) line.files rendered)
    (distinct : World.Distinct world line.files)
    (files : ∀ path request, Asks scan world line path request → request.kind = .file)
    (apart : ReadsNoChange scan world line) (found : FindsBlocksAgain scan world line)
    (written : World.Written world (writes rendered) after) :
    Run.config { after with web := web }.host line = Except.ok config ∧
      List.Forall₂ (Renders scan { after with web := web } line config) line.files
        (rendered.map settled) := by
  have prepared : prepare scan world.host line = Except.ok rendered :=
    prepare_eq_ok_iff.mpr ⟨config, isConfig, each⟩
  have changes : ∀ document ∈ rendered, document.changed = true →
      Changes scan world line document :=
    fun document member changed => ⟨rendered, prepared, member, changed⟩
  have alike : World.Alike world { after with web := web } :=
    ⟨written.alike.here_eq, written.alike.environment_eq, written.alike.shape⟩
  -- What no written document holds is read as before.
  have kept : ∀ path, (∀ document, Changes scan world line document →
      world.tree.realPath world.here path ≠ world.tree.realPath world.here document.path) →
      World.SameText world { after with web := web } path := by
    intro path elsewhere real leads
    refine written.others real fun write member same => ?_
    obtain ⟨document, changed, rfl⟩ := List.mem_map.mp member
    obtain ⟨isRendered, isChanged⟩ := List.mem_filter.mp changed
    exact elsewhere document (changes document isRendered isChanged) (leads.trans same.symm)
  refine ⟨(alike.config_eq (kept _ apart.config)).trans isConfig, ?_⟩
  rw [List.forall₂_map_right_iff]
  obtain ⟨length, all⟩ := List.forall₂_iff_zip.mp each
  refine List.forall₂_iff_zip.mpr ⟨length, fun {path document} paired => ?_⟩
  obtain ⟨listed, member⟩ := List.of_mem_zip paired
  have renders := all paired
  have agree := sources_agree alike isConfig listed renders files
    fun path request asks => kept _ (apart.sources path request asks)
  have held : ∀ real, world.tree.realPath world.here path = .ok real →
      after.tree.textAt real = .ok document.after :=
    fun _ leads => textAt_after distinct each written listed renders leads
  by_cases changed : document.changed = true
  · obtain ⟨ordered, again⟩ := found config document isConfig (changes document member changed)
    rw [renders.path_eq] at again
    exact renders.settled_of_written alike ordered again agree held
  · refine renders.settled_of_unchanged alike changed agree fun real leads => ?_
    rw [held real leads, renders.textAt leads]
    exact congrArg Except.ok (after_eq_before changed)

end Again

/-- After a run in place a check finds every document up to date, whatever the web answers
by then, as long as no document that is written is read for another purpose. -/
theorem check_upToDate_after_inPlace (scan : Scanner) (world : World) (web : Web)
    (line : CommandLine) (outcome : Outcome) (inPlace : line.inPlace = true)
    (noCheck : line.check = false)
    (distinct : World.Distinct world line.files)
    (files : ∀ path request, Asks scan world line path request → request.kind = .file)
    (apart : ReadsNoChange scan world line) (found : FindsBlocksAgain scan world line)
    (ran : (runWith scan world line).outcome = .ok outcome) :
    (runWith scan { (runWith scan world line).world with web := web }
      { line with inPlace := false, check := true }).outcome = .ok .upToDate := by
  cases prepared : prepare scan world.host line with
  | error e => simp [runWith, prepared] at ran
  | ok rendered =>
    obtain ⟨config, isConfig, each⟩ := prepare_eq_ok_iff.mp prepared
    obtain ⟨after, wrote, written⟩ := exists_afterWrites distinct each
    have left : (runWith scan world line).world = after := by
      have effect_eq : effect line rendered = ⟨[], [], writes rendered⟩ := by
        simp [effect, inPlace, noCheck, writes]
      unfold runWith
      simp only [prepared, effect_eq, wrote]
    obtain ⟨isConfigAgain, eachAgain⟩ :=
      renders_settled web isConfig each distinct files apart found written
    have preparedAgain : prepare scan { after with web := web }.host
        { line with inPlace := false, check := true } = Except.ok (rendered.map settled) :=
      prepare_eq_ok_iff.mpr ⟨config, isConfigAgain, eachAgain.imp fun _ _ renders =>
        ⟨renders.path_eq, renders.read, renders.rewritten⟩⟩
    have noneStale : ((rendered.map settled).filter Rendered.changed).map Rendered.path = [] := by
      simp [settled, Rendered.changed]
    rw [left]
    unfold runWith
    simp only [preparedAgain]
    simp [effect, noneStale, writeAll, Outcome.ofStale]

theorem asks_iff (isConfig : (Run.config world.host line).run = .ok config) {request : Request} :
    Asks scan world line path request ↔
      path ∈ line.files ∧ request ∈ requests scan world line config path := by
  constructor
  · rintro ⟨found, isFound, asked⟩
    obtain rfl := Except.ok.inj (isConfig.symm.trans isFound)
    exact asked
  · exact fun asked => ⟨config, isConfig, asked⟩

/-- The first of them. -/
def outdated : Rendered :=
  ⟨"a.md".toList, "```text file=s.txt\nold\n```\n".toList, "```text file=s.txt\nnew\n```\n".toList⟩

/-- The first document is written, and a check finds both up to date. -/
theorem check_upToDate_after_inPlace_sharing :
    (run sharing (inPlaceOver ["a.md", "b.md"])).outcome = .ok .upToDate ∧
      (run { (run sharing (inPlaceOver ["a.md", "b.md"])).world with web := Web.offline }
        { inPlaceOver ["a.md", "b.md"] with inPlace := false, check := true }).outcome =
          .ok .upToDate := by
  have isConfig : (Run.config sharing.host (inPlaceOver ["a.md", "b.md"])).run =
      Except.ok Config.standard := by decide +kernel
  have prepared :
      (prepare CommonMark.fencedRanges sharing.host (inPlaceOver ["a.md", "b.md"])).run =
        .ok [outdated, settled { outdated with path := "b.md".toList }] := by decide +kernel
  have requested : ∀ path ∈ (inPlaceOver ["a.md", "b.md"]).files,
      ∀ request ∈ requests CommonMark.fencedRanges sharing (inPlaceOver ["a.md", "b.md"])
        .standard path, request = ⟨.file, "s.txt".toList⟩ := by decide +kernel
  have changed : ∀ document, Changes CommonMark.fencedRanges sharing
      (inPlaceOver ["a.md", "b.md"]) document → document = outdated := by
    rintro document ⟨rendered, found, member, changed⟩
    obtain rfl := Except.ok.inj (prepared.symm.trans found)
    have only : ∀ document ∈ [outdated, settled { outdated with path := "b.md".toList }],
        document.changed = true → document = outdated := by decide +kernel
    exact only document member changed
  have ran : (run sharing (inPlaceOver ["a.md", "b.md"])).outcome = .ok .upToDate := by
    decide +kernel
  refine ⟨ran, check_upToDate_after_inPlace CommonMark.fencedRanges sharing Web.offline
    (inPlaceOver ["a.md", "b.md"]) .upToDate rfl rfl (by decide +kernel) ?_ ⟨?_, ?_⟩ ?_ ran⟩
  · intro path request asks
    obtain ⟨listed, member⟩ := (asks_iff isConfig).mp asks
    rw [requested path listed request member]
  · intro path request asks document changes
    obtain ⟨listed, member⟩ := (asks_iff isConfig).mp asks
    obtain rfl := requested path listed request member
    rw [changed document changes]
    have elsewhere : ∀ path ∈ (inPlaceOver ["a.md", "b.md"]).files,
        sharing.tree.realPath sharing.here (Path.join (Path.directory path) "s.txt".toList) ≠
          sharing.tree.realPath sharing.here outdated.path := by decide +kernel
    exact elsewhere path listed
  · intro document changes
    rw [changed document changes]
    decide +kernel
  · intro config document isFound changes
    obtain rfl := Except.ok.inj (isConfig.symm.trans isFound)
    obtain rfl := changed document changes
    refine ⟨by decide +kernel, ?_⟩
    have made : Document.editsAt
        (sources sharing (inPlaceOver ["a.md", "b.md"]) .standard outdated.path)
        ((inPlaceOver ["a.md", "b.md"]).options .standard)
        (CommonMark.fencedRanges outdated.before) outdated.before =
          .ok [⟨⟨19, 23⟩, "new\n".toList⟩] := by decide +kernel
    intro edits isMade
    obtain rfl := Except.ok.inj (made.symm.trans isMade)
    decide +kernel

/-- The first document reads a line of the second, which is out of date. -/
def chained : World := filesAtRoot [("a.md", "```text file=b.md#L2\n```\n"),
  ("b.md", "```text file=s.txt\nold\n```\n"), ("s.txt", "new\n")]

/-- The first document is the configuration too, and is out of date. -/
def configured : World := filesAtRoot [
  ("c.toml", "a = \"\"\"\n```text file=s.txt\nold\n```\n\"\"\"\n"),
  ("d.md", "```text file=t.txt\n  x\n```\n"),
  ("s.txt", "\"\"\"\nremove_redundant_indentations = true\nb = \"\"\"\n"), ("t.txt", "  x\n")]

def configuredLine : CommandLine :=
  { inPlaceOver ["c.toml", "d.md"] with config := some "c.toml".toList }

/-- A run in place leaves a document out of date, though all documents are different files
and read files only. -/
def LeavesStale (world : World) (line : CommandLine) (stale : Text) : Prop :=
  line.inPlace = true ∧ World.Distinct world line.files ∧
    (∀ path request, Asks CommonMark.fencedRanges world line path request → request.kind = .file) ∧
    (run world line).outcome = .ok .upToDate ∧
    (run (run world line).world { line with inPlace := false, check := true }).outcome =
      .ok (.stale [stale])

/-- Where a document that is written is also a source, or the configuration, the check finds
the one that reads it out of date. -/
theorem stale_after_inPlace :
    LeavesStale chained (inPlaceOver ["a.md", "b.md"]) "a.md".toList ∧
      LeavesStale configured configuredLine "d.md".toList := by
  constructor
  · have isConfig : (Run.config chained.host (inPlaceOver ["a.md", "b.md"])).run =
        .ok Config.standard := by decide +kernel
    have files : ∀ path ∈ (inPlaceOver ["a.md", "b.md"]).files,
        ∀ request ∈ requests CommonMark.fencedRanges chained (inPlaceOver ["a.md", "b.md"])
          .standard path, request.kind = .file := by decide +kernel
    refine ⟨rfl, by decide +kernel, fun path request asks => ?_, by decide +kernel,
      by decide +kernel⟩
    obtain ⟨listed, member⟩ := (asks_iff isConfig).mp asks
    exact files path listed request member
  · have isConfig : (Run.config configured.host configuredLine).run = .ok Config.standard := by
      decide +kernel
    have files : ∀ path ∈ configuredLine.files,
        ∀ request ∈ requests CommonMark.fencedRanges configured configuredLine .standard path,
          request.kind = .file := by
      decide +kernel
    refine ⟨rfl, by decide +kernel, fun path request asks => ?_, by decide +kernel,
      by decide +kernel⟩
    obtain ⟨listed, member⟩ := (asks_iff isConfig).mp asks
    exact files path listed request member

end Run
end Transclusion
