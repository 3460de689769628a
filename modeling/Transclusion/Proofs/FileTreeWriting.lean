import Transclusion.Host
import Transclusion.Proofs.FileTreeWalks
import Transclusion.Proofs.Lines

/-! Writing over a file that stands already. The folders above it are there, so none is
made, and the path leads to write where it leads to read. -/
namespace Transclusion
open Text

namespace Path
variable {path parent : Text}

theorem exists_below {pieces left : List Text} (above : above? pieces = some left) :
    ∃ below, below ≠ [] ∧ pieces = left ++ below := by
  unfold above? at above
  obtain ⟨idle, whole, -⟩ := exists_dropEndWhile isIdle pieces
  cases named : dropEndWhile isIdle pieces with
  | nil =>
    rw [named] at above
    cases above
  | cons first rest =>
    rw [named] at above whole
    obtain rfl := Option.some.inj above
    obtain ⟨middle, front, -⟩ := exists_dropEndWhile isIdle (first :: rest).dropLast
    have last := List.dropLast_append_getLast (List.cons_ne_nil first rest)
    refine ⟨middle ++ (first :: rest).getLast (by simp) :: idle, by simp, ?_⟩
    calc pieces = (first :: rest).dropLast ++ [(first :: rest).getLast (by simp)] ++ idle := by
          rw [last, whole]
      _ = dropEndWhile isIdle (first :: rest).dropLast ++ middle ++
            [(first :: rest).getLast (by simp)] ++ idle := by rw [← front]
      _ = _ := by simp

/-- The parent of a path is what is written before one of its slashes, or the root. -/
theorem parent?_cases (found : parent? path = some parent) (named : parent ≠ []) :
    (∃ rest, path = parent ++ '/' :: rest) ∨ (parent = ['/'] ∧ isAbsolute path) := by
  have joined := joinWith_splitOn '/' path
  unfold parent? at found
  cases cut : pieces path with
  | nil => exact absurd cut (splitOn_ne_nil '/' path)
  | cons head rest =>
    rw [show splitOn '/' path = head :: rest from cut] at joined
    rw [cut] at found
    dsimp only at found
    split at found
    · next absolute =>
      obtain ⟨left, above, rfl⟩ := Option.map_eq_some_iff.mp found
      obtain ⟨below, more, rfl⟩ := exists_below above
      cases left with
      | nil => exact Or.inr ⟨rfl, absolute⟩
      | cons first left =>
        obtain ⟨name, rfl⟩ : ∃ name, path = '/' :: name := List.head?_eq_some_iff.mp
          (by simpa [isAbsolute] using absolute)
        have noHead : ([] : Text) = head := by
          simpa [pieces, splitOn] using congrArg List.head? cut
        refine Or.inl ⟨joinWith '/' below, ?_⟩
        rw [← joined, ← noHead, ← List.cons_append, joinWith_append '/' (by simp) more]
        rfl
    split at found
    · next dot =>
      cases above : above? rest with
      | none =>
        rw [above] at found
        exact absurd (Option.some.inj found).symm named
      | some left =>
        rw [above] at found
        obtain ⟨below, more, rfl⟩ := exists_below above
        obtain rfl := Option.some.inj found
        refine Or.inl ⟨joinWith '/' below, ?_⟩
        rw [← joined, ← List.cons_append, joinWith_append '/' (by simp) more]
        rfl
    · obtain ⟨left, above, rfl⟩ := Option.map_eq_some_iff.mp found
      obtain ⟨below, more, whole⟩ := exists_below above
      have nonempty : left ≠ [] := by
        rintro rfl
        exact named rfl
      exact Or.inl ⟨joinWith '/' below, by rw [← joined, whole, joinWith_append '/' nonempty more]⟩

end Path

namespace FileTree
variable {tree : FileTree} {here real : RealPath} {path : Text}

/-- A path that can be walked. -/
theorem checkPath_eq_ok_iff :
    checkPath path = .ok () ↔ '\x00' ∉ path ∧ path ≠ [] ∧ Text.byteLength path ≤ maxPath := by
  unfold checkPath
  split
  · next null =>
    have unsound : '\x00' ∈ path := by simpa using null
    simp [unsound]
  split
  · next empty =>
    have unnamed : path = [] := by simpa using empty
    simp [unnamed]
  split
  · next long => simp [long]
  · next sound named short =>
    simp only [List.contains_iff_mem, List.isEmpty_iff] at sound named
    simp [sound, named, Nat.le_of_not_lt short]

/-- A path with a real path was checked and walked. -/
theorem realPath_eq_ok_iff :
    tree.realPath here path = .ok real ↔
      checkPath path = .ok () ∧
        tree.walk maxLinks (startOf here path) (Path.pieces path) = .ok (.taken real) := by
  unfold realPath locate
  cases checkPath path with
  | error e => simp
  | ok =>
    cases tree.walk maxLinks (startOf here path) (Path.pieces path) with
    | error e => simp
    | ok place => cases place <;> simp

/-- A walk by one name finds the node of that name. -/
private theorem isSome_of_walk {links : Nat} {above : RealPath} {name : Text}
    (walked : tree.walk links above [name] = .ok (.taken real))
    (plain : ¬ (Path.isIdle name || decide (name = ['.', '.'])) = true) :
    ¬ maxName < Text.byteLength name ∧ (tree.node? (above ++ [name])).isSome := by
  have isFolder := folder_of_walk (by simp) walked
  simp only [Bool.or_eq_true, decide_eq_true_eq, not_or] at plain
  rw [walk_eq_follow, advance, if_neg (by simpa using isFolder), if_neg plain.1,
    if_neg plain.2] at walked
  split at walked
  · cases walked
  · next short =>
    refine ⟨short, ?_⟩
    cases stands : tree.node? (above ++ [name]) with
    | none =>
      rw [stands] at walked
      cases walked
    | some node => rfl

/-- No folder is made where something stands. -/
theorem makeFolder_of_there (there : tree.realPath here path = .ok real) :
    tree.makeFolder here path = .error .alreadyExists := by
  obtain ⟨checked, walked⟩ := realPath_eq_ok_iff.mp there
  obtain ⟨sound, -, -⟩ := checkPath_eq_ok_iff.mp checked
  have last := List.getLast?_eq_some_getLast (splitOn_ne_nil '/' path)
  have cut := List.dropLast_append_getLast (splitOn_ne_nil '/' path)
  rw [Path.pieces, ← cut] at walked
  obtain ⟨above, left, front, isFolder, walkedLast⟩ := exists_walk_append (by simp) walked
  unfold makeFolder Path.pieces
  simp only [List.contains_iff_mem, if_neg sound, front, last, ne_eq, isFolder, not_true_eq_false,
    if_false]
  split
  · rfl
  · next plain =>
    obtain ⟨short, stands⟩ := isSome_of_walk walkedLast plain
    rw [if_neg short, if_pos stands]

/-- The folders down to one that stands are there. -/
theorem makeFolders_of_isFolder (isFolder : tree.isFolder here path = true) :
    tree.makeFolders here path = ⟨none, tree⟩ := by
  unfold makeFolders makeFoldersUpTo
  split
  · rfl
  · have there : tree.makeFolder here path = .error .alreadyExists := by
      unfold FileTree.isFolder at isFolder
      cases found : tree.realPath here path with
      | error e => simp [found] at isFolder
      | ok real => exact makeFolder_of_there found
    have ensured : tree.ensureFolder here path = ⟨none, tree⟩ := by
      simp [ensureFolder, there, isFolder]
    simp only [there]
    cases path.length <;> exact ensured

/-- The parent of a path to something is a folder. -/
theorem isFolder_of_parent {parent : Text} (there : tree.realPath here path = .ok real)
    (found : Path.parent? path = some parent) (named : parent ≠ []) :
    tree.isFolder here parent = true := by
  obtain ⟨checked, walked⟩ := realPath_eq_ok_iff.mp there
  obtain ⟨sound, -, short⟩ := checkPath_eq_ok_iff.mp checked
  rcases Path.parent?_cases found named with ⟨rest, rfl⟩ | ⟨rfl, absolute⟩
  · rw [Path.pieces, splitOn_append] at walked
    have start : startOf here (parent ++ '/' :: rest) = startOf here parent := by
      simp [startOf, Path.isAbsolute, List.head?_append_of_ne_nil parent named]
    rw [start] at walked
    obtain ⟨middle, left, front, isFolder, -⟩ :=
      exists_walk_append (splitOn_ne_nil '/' rest) walked
    have parentChecked : checkPath parent = .ok () := by
      refine checkPath_eq_ok_iff.mpr ⟨fun null => sound (by simp [null]), named, ?_⟩
      rw [byteLength_append] at short
      omega
    have parentThere : tree.realPath here parent = .ok middle :=
      realPath_eq_ok_iff.mpr ⟨parentChecked, front⟩
    unfold FileTree.isFolder
    simp [parentThere, isFolder]
  · have root : tree.realPath here ['/'] = .ok [] :=
      realPath_eq_ok_iff.mpr ⟨by decide, by
        rw [walk_eq_follow]
        rfl⟩
    unfold FileTree.isFolder
    simp [root, node?]

/-- A file that stands already is written where it stands, and nothing else changes. -/
theorem write_of_file {content : Content} (there : tree.realPath here path = .ok real)
    (isFile : tree.node? real = some (.file content)) (written : Content) :
    tree.write here path written = ⟨none, tree.put real (.file written)⟩ := by
  have folders : tree.makeFolders here ((Path.parent? path).getD []) = ⟨none, tree⟩ := by
    cases found : Path.parent? path with
    | none => rfl
    | some parent =>
      by_cases named : parent = []
      · rw [named]
        rfl
      · exact makeFolders_of_isFolder (isFolder_of_parent there found named)
  obtain ⟨checked, walked⟩ := realPath_eq_ok_iff.mp there
  have located : tree.locateFile here path = .ok real := by
    unfold locateFile
    rw [checked]
    exact walkToFile_eq walked isFile
  unfold write
  rw [folders]
  simp [Attempt.andThen, writeFile, located]

end FileTree

/-- Writing a document that can be read changes its file alone. -/
theorem World.write_of_file {world : World} {path : Text} {real : RealPath} {content : Content}
    (there : world.tree.realPath world.here path = .ok real)
    (isFile : world.tree.node? real = some (.file content)) (text : Text) :
    world.write path text =
      (none, { world with tree := world.tree.put real (.file (.text text)) }) := by
  unfold write
  rw [FileTree.write_of_file there isFile]

end Transclusion
