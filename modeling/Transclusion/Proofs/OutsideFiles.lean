import Transclusion.Markdown
import Transclusion.Proofs.Containment

/-! What files outside the root hold has no influence on a rewrite. Where paths lead is decided
by folders and links alone, and a source that is kept to its root opens no file before it is
known to lie inside. -/
namespace Transclusion.LocalSource
variable {world : World} {other : FileTree} {source : LocalSource} {root real : RealPath}

/-- The files in or below the real root of a source hold the same in another file system. -/
def SameInside (world : World) (other : FileTree) (source : LocalSource) : Prop :=
  ∀ root, world.tree.realPath world.here source.root = .ok root →
    ∀ real, root <+: real → ∀ content, world.tree.node? real = some (.file content) →
      other.node? real = some (.file content)

/-- In or below the real root, nothing differs. -/
theorem SameInside.node?_eq (inside : SameInside world other source)
    (shape : world.tree.SameShape other)
    (there : world.tree.realPath world.here source.root = .ok root) (under : root <+: real) :
    other.node? real = world.tree.node? real := by
  rcases shape real with same | ⟨content, written, isFile, -⟩
  · exact same.symm
  · rw [isFile]
    exact inside root there real under content isFile

/-- A source that is kept to its root gives the same answers. -/
theorem SameInside.fetch_eq (inside : SameInside world other source)
    (shape : world.tree.SameShape other) (locator : Text) :
    source.contained.fetch { world with tree := other }.host locator =
      source.contained.fetch world.host locator := by
  have alike : World.Alike world { world with tree := other } := ⟨rfl, rfl, shape⟩
  apply alike.fetch_eq_of_resolved
  intro real found
  obtain ⟨root, there⟩ := exists_root found
  obtain ⟨-, under⟩ := (resolve_contained_eq_ok_iff there).mp found
  unfold FileTree.textAt
  rw [inside.node?_eq shape there under]

/-- Two file systems with the same folders, links and places of files, whose files inside the
root of a source hold the same, give the same rewrites of all documents: the same text, or the
same error. -/
theorem rewrite_eq_of_sameInside (scan : Scanner) (world : World) (other : FileTree)
    (source : LocalSource) (options : Options) (text : Text) (shape : world.tree.SameShape other)
    (inside : SameInside world other source) :
    Document.rewriteWith scan (source.contained.alone { world with tree := other }.host) options
        text =
      Document.rewriteWith scan (source.contained.alone world.host) options text := by
  have answers : source.contained.alone { world with tree := other }.host =
      source.contained.alone world.host :=
    funext fun request => inside.fetch_eq shape request.locator
  rw [answers]

/-- The second block asks for a file outside, whose text is not even text in the other file
system. -/
theorem rewrite_eq_of_sameInside_siblings :
    let secret := ["w".toList, "root-b".toList, "secret.txt".toList]
    let other := siblings.tree.put secret (.file (.binary [255]))
    let text := "```a file=in.txt\n```\n\n```b file=out/secret.txt\n```\n".toList
    let refused : Except RewriteError Text := .error
      (.fetch 4 (.outsideRoot "/w/root-b/secret.txt".toList "/w/root".toList))
    siblings.tree.SameShape other ∧ SameInside siblings other inRoot ∧
      other.textAt secret ≠ siblings.tree.textAt secret ∧
      Document.rewrite (inRoot.contained.alone siblings.host) .standard text = refused ∧
      Document.rewrite (inRoot.contained.alone { siblings with tree := other }.host) .standard
        text = refused := by
  intro secret other text refused
  have isSecret : siblings.tree.node? secret = some (.file (.text "outside".toList)) := by decide
  have shape : siblings.tree.SameShape other := FileTree.SameShape.put isSecret _
  have there : siblings.tree.realPath siblings.here inRoot.root =
      .ok ["w".toList, "root".toList] := by decide +kernel
  have inside : SameInside siblings other inRoot := by
    intro root isRoot real under content isFile
    obtain rfl := Except.ok.inj (there.symm.trans isRoot)
    have elsewhere : real ≠ secret := by
      rintro rfl
      exact absurd under (by decide)
    rw [FileTree.node?_put _ _ _ (by decide), if_neg elsewhere, isFile]
  have rewritten : (Document.rewrite (inRoot.contained.alone siblings.host) .standard text).run =
      refused := by decide +kernel
  refine ⟨shape, inside, by decide, rewritten, ?_⟩
  exact (rewrite_eq_of_sameInside CommonMark.fencedRanges siblings other inRoot .standard text shape
    inside).trans rewritten

end Transclusion.LocalSource
