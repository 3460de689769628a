import Mathlib.Data.List.Forall2
import Transclusion.Run

/-! What a run finds out before it acts: one rendered document for each path, in order,
under the one configuration, or the first failure. -/
namespace Transclusion

theorem DocumentFile.read_host (world : World) (path : Text) :
    DocumentFile.read world.host path =
      if world.tree.isThere world.here path then
        match world.tree.read world.here path with
        | .error cause => Except.error (.io cause)
        | .ok text => .ok text
      else .error (.notFound path) := rfl

namespace Run
variable {scan : Scanner} {world : World} {line : CommandLine} {config : Config} {path : Text}
  {rendered : List Rendered} {document : Rendered}

/-- The answers a document gets in a run. -/
def sources (world : World) (line : CommandLine) (config : Config) (path : Text) : Source Id :=
  LocalSource.orWeb world.host
    ⟨Path.directory path, world.here.render, line.allowOutsideRoot || config.allowOutsideRoot⟩

/-- A document and what it is rewritten to. -/
structure Renders (scan : Scanner) (world : World) (line : CommandLine) (config : Config)
    (path : Text) (document : Rendered) : Prop where
  path_eq : document.path = path
  read : world.tree.read world.here path = .ok document.before
  rewritten : Document.rewriteWith scan (sources world line config path) (line.options config)
    document.before = Except.ok document.after

/-- Documents have one reading. -/
theorem Renders.unique {second : Rendered} (renders : Renders scan world line config path document)
    (again : Renders scan world line config path second) : document = second := by
  obtain ⟨own, before, after⟩ := document
  obtain ⟨other, beforeAgain, afterAgain⟩ := second
  obtain rfl : own = path := renders.path_eq
  obtain rfl : other = own := again.path_eq
  obtain rfl : before = beforeAgain := Except.ok.inj (renders.read.symm.trans again.read)
  obtain rfl : after = afterAgain := Except.ok.inj (renders.rewritten.symm.trans again.rewritten)
  rfl

/-- A document is read exactly when its file is. -/
theorem read_eq_ok_iff {text : Text} :
    DocumentFile.read world.host path = Except.ok text ↔
      world.tree.read world.here path = .ok text := by
  rw [DocumentFile.read_host]
  cases found : world.tree.read world.here path with
  | error cause => split <;> simp
  | ok before =>
    have isThere : world.tree.isThere world.here path = true := by
      unfold FileTree.read at found
      unfold FileTree.isThere
      cases there : world.tree.realPath world.here path with
      | error e =>
        rw [there] at found
        cases found
      | ok real => rfl
    simp only [isThere, if_true]
    exact ⟨fun same => congrArg Except.ok (Except.ok.inj same),
      fun same => congrArg Except.ok (Except.ok.inj same)⟩

theorem render_host (scan : Scanner) (world : World) (line : CommandLine) (config : Config)
    (path : Text) :
    render scan world.host (line.options config) world.here.render
        (line.allowOutsideRoot || config.allowOutsideRoot) path =
      match DocumentFile.read world.host path with
      | .error cause => Except.error (.document cause)
      | .ok before =>
        match Document.rewriteWith scan (sources world line config path) (line.options config)
            before with
        | .error cause => .error (.rewrite path cause)
        | .ok after => .ok ⟨path, before, after⟩ := rfl

theorem render_eq_ok_iff :
    render scan world.host (line.options config) world.here.render
        (line.allowOutsideRoot || config.allowOutsideRoot) path = Except.ok document ↔
      Renders scan world line config path document := by
  rw [render_host]
  constructor
  · intro rendered
    split at rendered
    · cases rendered
    · next before read =>
      split at rendered
      · cases rendered
      · next after rewritten =>
        obtain rfl := Except.ok.inj rendered
        exact ⟨rfl, read_eq_ok_iff.mp read, rewritten⟩
  · rintro ⟨rfl, read, rewritten⟩
    rw [read_eq_ok_iff.mpr read]
    simp only [rewritten]

theorem renderAll_cons (scan : Scanner) (host : Host Id) (options : Options) (root : Text)
    (allowOutside : Bool) (path : Text) (paths : List Text) :
    renderAll scan host options root allowOutside (path :: paths) =
      match render scan host options root allowOutside path with
      | .error e => Except.error e
      | .ok document =>
        match renderAll scan host options root allowOutside paths with
        | .error e => .error e
        | .ok more => .ok (document :: more) := rfl

/-- All documents are rendered in the end, or there is an error. -/
theorem renderAll_eq_ok_iff {host : Host Id} {options : Options} {root : Text}
    {allowOutside : Bool} {paths : List Text} {rendered : List Rendered} :
    renderAll scan host options root allowOutside paths = Except.ok rendered ↔
      List.Forall₂ (fun path document =>
        render scan host options root allowOutside path = Except.ok document) paths rendered := by
  induction paths generalizing rendered with
  | nil =>
    rw [List.forall₂_nil_left_iff]
    exact ⟨fun none => (Except.ok.inj none).symm, fun none => congrArg Except.ok none.symm⟩
  | cons path paths ih =>
    rw [renderAll_cons, List.forall₂_cons_left_iff]
    constructor
    · intro all
      split at all
      · cases all
      · next document first =>
        split at all
        · cases all
        · next more rest => exact ⟨document, more, first, ih.mp rest, (Except.ok.inj all).symm⟩
    · rintro ⟨document, more, first, rest, rfl⟩
      simp only [first, ih.mpr rest]

theorem prepare_host (scan : Scanner) (world : World) (line : CommandLine) :
    prepare scan world.host line =
      match Run.config world.host line with
      | .error e => Except.error e
      | .ok config =>
        renderAll scan world.host (line.options config) world.here.render
          (line.allowOutsideRoot || config.allowOutsideRoot) line.files := rfl

/-- A run renders its documents under its configuration, or fails. -/
theorem prepare_eq_ok_iff :
    prepare scan world.host line = Except.ok rendered ↔
      ∃ config, Run.config world.host line = Except.ok config ∧
        List.Forall₂ (Renders scan world line config) line.files rendered := by
  rw [prepare_host]
  cases Run.config world.host line with
  | error e => simp
  | ok config =>
    simp only [renderAll_eq_ok_iff, render_eq_ok_iff]
    constructor
    · exact fun each => ⟨config, rfl, each⟩
    · rintro ⟨found, same, each⟩
      obtain rfl := Except.ok.inj same
      exact each

section Each
variable (each : List.Forall₂ (Renders scan world line config) line.files rendered)
include each

theorem paths_eq : rendered.map Rendered.path = line.files := by
  have same : List.Forall₂ (fun path document => path = document.path) line.files rendered :=
    each.imp fun _ _ renders => renders.path_eq.symm
  rw [← List.forall₂_map_right_iff, List.forall₂_eq_eq_eq] at same
  exact same.symm

theorem exists_of_rendered (member : document ∈ rendered) :
    ∃ path ∈ line.files, Renders scan world line config path document := by
  obtain ⟨length, all⟩ := List.forall₂_iff_zip.mp each
  have paired : (line.files.zip rendered).map Prod.snd = rendered :=
    List.map_snd_zip (Nat.le_of_eq length.symm)
  rw [← paired] at member
  obtain ⟨⟨path, own⟩, both, rfl⟩ := List.mem_map.mp member
  exact ⟨path, (List.of_mem_zip both).1, all both⟩

theorem exists_of_listed (listed : path ∈ line.files) :
    ∃ document ∈ rendered, Renders scan world line config path document := by
  obtain ⟨length, all⟩ := List.forall₂_iff_zip.mp each
  have paired : (line.files.zip rendered).map Prod.fst = line.files :=
    List.map_fst_zip (Nat.le_of_eq length)
  rw [← paired] at listed
  obtain ⟨⟨own, document⟩, both, rfl⟩ := List.mem_map.mp listed
  exact ⟨document, (List.of_mem_zip both).2, all both⟩

end Each

end Run
end Transclusion
