import Mathlib.Data.List.Forall2
import Transclusion.Proofs.RealPaths
import Transclusion.Proofs.Surroundings

/-! Containment. A source that is kept to its root gives texts of files whose real path lies
in or below the real path of the root, name by name, whatever links and `..` there are on the
way; and it refuses nothing else than a source that may read anywhere. -/
namespace Transclusion

theorem RealPath.isUnder_iff {path root : RealPath} :
    path.isUnder root = true ↔ root <+: path := List.isPrefixOf_iff_prefix

namespace LocalSource
variable {world : World} {source : LocalSource} {locator : Text} {real root : RealPath}

/-- The same source, kept to its root. -/
def contained (source : LocalSource) : LocalSource := { source with allowOutside := false }

/-- The same source, free to read anywhere. -/
def anywhere (source : LocalSource) : LocalSource := { source with allowOutside := true }

/-- A source kept to a root that is there looks at what it would find anywhere. -/
theorem resolve_contained (there : world.tree.realPath world.here source.root = .ok root) :
    source.contained.resolve world.host locator =
      match source.anywhere.resolve world.host locator with
      | .error e => Except.error e
      | .ok path =>
        if path.isUnder root then .ok path
        else .error (.outsideRoot path.render root.render) := by
  rw [resolve_host, resolve_host]
  simp only [contained, anywhere, Bool.false_eq_true, if_false, if_true, there]
  split <;> rfl

theorem resolve_contained_eq_ok_iff
    (there : world.tree.realPath world.here source.root = .ok root) :
    source.contained.resolve world.host locator = Except.ok real ↔
      source.anywhere.resolve world.host locator = Except.ok real ∧ root <+: real := by
  rw [resolve_contained there]
  cases source.anywhere.resolve world.host locator with
  | error e => exact ⟨fun found => (by cases found), fun found => (by cases found.1)⟩
  | ok path =>
    dsimp only
    by_cases under : path.isUnder root = true
    · rw [if_pos under]
      refine ⟨fun found => ⟨found, ?_⟩, fun found => found.1⟩
      obtain rfl : path = real := Except.ok.inj found
      exact RealPath.isUnder_iff.mp under
    · rw [if_neg under]
      refine ⟨fun found => (by cases found), fun ⟨found, inside⟩ => ?_⟩
      obtain rfl : path = real := Except.ok.inj found
      exact absurd (RealPath.isUnder_iff.mpr inside) under

/-- Without its root a source that is kept to it finds nothing. -/
theorem exists_root (found : source.contained.resolve world.host locator = Except.ok real) :
    ∃ root, world.tree.realPath world.here source.root = .ok root := by
  rw [resolve_host] at found
  cases there : world.tree.realPath world.here source.root with
  | ok root => exact ⟨root, rfl⟩
  | error cause =>
    simp only [contained, Bool.false_eq_true, if_false, there] at found
    split at found <;> cases found

/-- What a source finds is what the path means. -/
theorem means_of_resolve (found : source.anywhere.resolve world.host locator = Except.ok real) :
    world.tree.Means world.here (Path.join source.base locator) real := by
  rw [resolve_host] at found
  simp only [anywhere, if_true] at found
  split at found
  · cases found
  · cases found
  · next path there =>
    obtain rfl : path = real := Except.ok.inj found
    exact FileTree.means_of_realPath there

/-- A source that is kept to its root gives the content of regular files in or below the real
root alone. If the root is there, it finds just what it would find anywhere in or below the
real root, refuses all else as outside, and fails as it would anywhere. -/
theorem fetch_contained (world : World) (source : LocalSource) (locator : Text)
    (working : world.tree.IsReal world.here) :
    (∀ text, source.contained.fetch world.host locator = Except.ok text → ∃ real root,
        world.tree.Means world.here (Path.join source.base locator) real ∧
        world.tree.Means world.here source.root root ∧
        world.tree.IsReal real ∧ world.tree.IsReal root ∧
        world.tree.node? real = some (.file (.text text)) ∧ root <+: real) ∧
      ∀ root, world.tree.realPath world.here source.root = .ok root →
        (∀ path, source.contained.resolve world.host locator = Except.ok path ↔
          source.anywhere.resolve world.host locator = Except.ok path ∧ root <+: path) ∧
        (∀ path, source.anywhere.resolve world.host locator = Except.ok path → ¬ root <+: path →
          source.contained.resolve world.host locator =
            Except.error (.outsideRoot path.render root.render)) ∧
        ∀ e, source.anywhere.resolve world.host locator = Except.error e →
          source.contained.resolve world.host locator = Except.error e := by
  constructor
  · intro text fetched
    rw [fetch_host] at fetched
    split at fetched
    · cases fetched
    next real found =>
    split at fetched
    · cases fetched
    next content read =>
    obtain rfl : content = text := Except.ok.inj fetched
    obtain ⟨root, there⟩ := exists_root found
    obtain ⟨foundAnywhere, inside⟩ := (resolve_contained_eq_ok_iff there).mp found
    have means := means_of_resolve foundAnywhere
    have rootMeans := FileTree.means_of_realPath there
    exact ⟨real, root, means, rootMeans, means.isReal (working.startOf _),
      rootMeans.isReal (working.startOf _), FileTree.textAt_eq_ok_iff.mp read, inside⟩
  · intro root there
    refine ⟨fun path => resolve_contained_eq_ok_iff there, fun path found outside => ?_, fun e failed => ?_⟩
    · rw [resolve_contained there, found]
      exact if_neg fun under => outside (RealPath.isUnder_iff.mp under)
    · rw [resolve_contained there, failed]

/-- Two folders side by side, the name of one the beginning of the name of the other, with
links between them. -/
def siblings : World where
  tree := ⟨[(["w".toList], .folder), (["w".toList, "root".toList], .folder),
    (["w".toList, "root-b".toList], .folder),
    (["w".toList, "root".toList, "in.txt".toList], .file (.text "inside".toList)),
    (["w".toList, "root".toList, "out".toList], .link "../root-b".toList),
    (["w".toList, "root-b".toList, "secret.txt".toList], .file (.text "outside".toList)),
    (["w".toList, "root-b".toList, "back".toList], .link "../root".toList)]⟩
  here := ["w".toList]
  web := Web.offline
  environment := ⟨[], ['/']⟩

/-- A source that starts in the first of them and is kept to it. -/
def inRoot : LocalSource := ⟨"root".toList, "/w/root".toList, false⟩

/-- A way out of the root and back is followed, a way out to the sibling is refused. -/
theorem fetch_contained_siblings :
    (inRoot.contained.fetch siblings.host "out/back/../root/in.txt".toList =
        Except.ok "inside".toList ∧
      ∃ real root,
        siblings.tree.Means siblings.here (Path.join inRoot.base "out/back/../root/in.txt".toList)
          real ∧
        siblings.tree.Means siblings.here inRoot.root root ∧
        siblings.tree.IsReal real ∧ siblings.tree.IsReal root ∧
        siblings.tree.node? real = some (.file (.text "inside".toList)) ∧ root <+: real) ∧
      inRoot.contained.resolve siblings.host "out/secret.txt".toList =
        Except.error (.outsideRoot "/w/root-b/secret.txt".toList "/w/root".toList) := by
  have working : siblings.tree.IsReal ([] ++ ["w".toList]) :=
    .child .root rfl ⟨rfl, by decide, by decide⟩ rfl (fun _ same => by cases same)
  have fetched : (inRoot.contained.fetch siblings.host "out/back/../root/in.txt".toList).run =
      Except.ok "inside".toList := by decide +kernel
  have there : siblings.tree.realPath siblings.here inRoot.root =
      .ok ["w".toList, "root".toList] := by decide +kernel
  have found : (inRoot.anywhere.resolve siblings.host "out/secret.txt".toList).run =
      Except.ok ["w".toList, "root-b".toList, "secret.txt".toList] := by decide +kernel
  refine ⟨⟨fetched, (fetch_contained siblings inRoot _ working).1 _ fetched⟩, ?_⟩
  exact ((fetch_contained siblings inRoot _ working).2 _ there).2.1 _ found (by decide)

end LocalSource
end Transclusion
