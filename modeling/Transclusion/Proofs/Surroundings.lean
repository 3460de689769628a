import Transclusion.Proofs.FileTreeWalks
import Transclusion.Run

/-! Surroundings that differ in what files hold. Paths lead to the same places in both, so
whatever reads files that hold the same finds no difference. -/
namespace Transclusion

section Answers
variable (world : World)

theorem LocalSource.resolve_host (source : LocalSource) (locator : Text) :
    source.resolve world.host locator =
      match world.tree.realPath world.here (Path.join source.base locator) with
      | .error .notFound => Except.error (.notFound (Path.join source.base locator))
      | .error cause => .error (.io (Path.join source.base locator) cause)
      | .ok path =>
        if source.allowOutside then .ok path
        else
          match world.tree.realPath world.here source.root with
          | .error cause => .error (.io source.root cause)
          | .ok root =>
            if path.isUnder root then .ok path
            else .error (.outsideRoot path.render root.render) := by
  unfold LocalSource.resolve
  rfl

theorem LocalSource.fetch_host (source : LocalSource) (locator : Text) :
    source.fetch world.host locator =
      match source.resolve world.host locator with
      | .error e => Except.error e
      | .ok path =>
        match world.tree.textAt path with
        | .error cause => .error (.io path.render cause)
        | .ok text => .ok text := rfl

theorem Run.config_host (line : CommandLine) :
    Run.config world.host line =
      match line.config with
      | some path =>
        match Config.load world.host path with
        | .error cause => Except.error (.config cause)
        | .ok none => .error (.noConfig path)
        | .ok (some config) => .ok config
      | none =>
        match Config.load world.host (Config.defaultPath world.host) with
        | .error cause => .error (.config cause)
        | .ok config => .ok (config.getD .standard) := by
  unfold Run.config
  cases line.config <;> rfl

end Answers

namespace World

/-- Surroundings that differ in what files hold and in the answers of the web. -/
structure Alike (world other : World) : Prop where
  here_eq : other.here = world.here
  environment_eq : other.environment = world.environment
  shape : FileTree.SameShape world.tree other.tree

/-- The same text, or the same error, in the file at a path. -/
def SameText (world other : World) (path : Text) : Prop :=
  ∀ real, world.tree.realPath world.here path = .ok real →
    other.tree.textAt real = world.tree.textAt real

namespace Alike
variable {world other : World}

theorem realPath_eq (alike : Alike world other) (path : Text) :
    other.tree.realPath other.here path = world.tree.realPath world.here path := by
  rw [alike.here_eq, alike.shape.realPath_eq]

theorem isThere_eq (alike : Alike world other) (path : Text) :
    other.tree.isThere other.here path = world.tree.isThere world.here path := by
  simp only [FileTree.isThere, alike.realPath_eq]

theorem read_eq (alike : Alike world other) {path : Text} (same : SameText world other path) :
    other.tree.read other.here path = world.tree.read world.here path := by
  unfold FileTree.read
  rw [alike.realPath_eq]
  cases found : world.tree.realPath world.here path with
  | error e => rfl
  | ok real => exact same real found

/-- What a locator is resolved to is where its path leads. -/
private theorem realPath_of_resolve {source : LocalSource} {locator : Text} {real : RealPath}
    (resolved : source.resolve world.host locator = Except.ok real) :
    world.tree.realPath world.here (Path.join source.base locator) = .ok real := by
  rw [LocalSource.resolve_host] at resolved
  split at resolved
  · cases resolved
  · cases resolved
  · next path found =>
    rw [found]
    split at resolved
    · exact congrArg Except.ok (Except.ok.inj resolved)
    split at resolved
    · cases resolved
    split at resolved
    · exact congrArg Except.ok (Except.ok.inj resolved)
    · cases resolved

theorem resolve_eq (alike : Alike world other) (source : LocalSource) (locator : Text) :
    source.resolve other.host locator = source.resolve world.host locator := by
  simp only [LocalSource.resolve, host, alike.realPath_eq]

/-- A locator is answered as before, if what it is resolved to holds the same text. -/
theorem fetch_eq_of_resolved (alike : Alike world other) {source : LocalSource} {locator : Text}
    (same : ∀ real, source.resolve world.host locator = Except.ok real →
      other.tree.textAt real = world.tree.textAt real) :
    source.fetch other.host locator = source.fetch world.host locator := by
  rw [LocalSource.fetch_host, LocalSource.fetch_host, alike.resolve_eq]
  cases found : source.resolve world.host locator with
  | error e => rfl
  | ok real => simp only [same real found]

theorem fetch_eq (alike : Alike world other) {source : LocalSource} {locator : Text}
    (same : SameText world other (Path.join source.base locator)) :
    source.fetch other.host locator = source.fetch world.host locator :=
  alike.fetch_eq_of_resolved fun real found => same real (realPath_of_resolve found)

/-- The configuration is the same, if its file is. -/
theorem config_eq (alike : Alike world other) {line : CommandLine}
    (same : SameText world other (line.config.getD (Config.defaultPath world.host))) :
    Run.config other.host line = Run.config world.host line := by
  have environment : other.host.environment = world.host.environment :=
    funext fun _ => alike.environment_eq
  have loaded : ∀ path, SameText world other path →
      Config.load other.host path = Config.load world.host path := by
    intro path same
    have isThere : other.host.isThere path = world.host.isThere path := alike.isThere_eq path
    have read : other.host.read path = world.host.read path := alike.read_eq same
    unfold Config.load Config.expand
    rw [isThere, read, environment]
  have defaultPath : Config.defaultPath other.host = Config.defaultPath world.host := by
    unfold Config.defaultPath
    rw [environment]
  rw [Run.config_host, Run.config_host, defaultPath]
  cases named : line.config with
  | some path =>
    rw [named] at same
    simp only [loaded path same]
  | none =>
    rw [named] at same
    have standard := loaded _ same
    simp only [Option.getD_none] at standard
    simp only [standard]

end Alike
end World
end Transclusion
