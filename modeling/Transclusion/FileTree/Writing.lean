import Transclusion.FileTree

/-! Making folders, files and links in a file system held as a value. What was made
before an operation fails stays. -/
namespace Transclusion.FileTree

/-- Makes one folder, in a folder that exists. A link that stands there counts, even if
it leads nowhere. -/
def makeFolder (tree : FileTree) (here : RealPath) (path : Text) : Except FileError FileTree :=
  let pieces := Path.pieces path
  if path.contains '\x00' then .error .nulInName
  else
    match tree.walk maxLinks (startOf here path) pieces.dropLast, pieces.getLast? with
    | .error e, _ => .error e
    | .ok (.vacant _), _ | _, none => .error .notFound
    | .ok (.taken above), some name =>
      if tree.node? above ≠ some .folder then .error .notADirectory
      else if Path.isIdle name || name = ['.', '.'] then .error .alreadyExists
      else if maxName < Text.byteLength name then .error .nameTooLong
      else if (tree.node? (above ++ [name])).isSome then .error .alreadyExists
      else .ok (tree.put (above ++ [name]) .folder)

/-- What an operation in several steps leaves: the tree, also where it stopped halfway,
and why it stopped. -/
structure Attempt where
  failure : Option FileError
  tree : FileTree
deriving DecidableEq, Repr

namespace Attempt

/-- The tree, unless the operation failed. -/
def toExcept (attempt : Attempt) : Except FileError FileTree :=
  match attempt.failure with
  | none => .ok attempt.tree
  | some e => .error e

/-- Goes on with the tree of an operation that did not fail. -/
def andThen (attempt : Attempt) (next : FileTree → Attempt) : Attempt :=
  match attempt.failure with
  | none => next attempt.tree
  | some _ => attempt

end Attempt

/-- Makes one folder, unless it is there. -/
def ensureFolder (tree : FileTree) (here : RealPath) (path : Text) : Attempt :=
  match tree.makeFolder here path with
  | .ok made => ⟨none, made⟩
  | .error e => if tree.isFolder here path then ⟨none, tree⟩ else ⟨some e, tree⟩

/-- Makes a folder and those above it that are missing; `depth` bounds how many. -/
def makeFoldersUpTo (depth : Nat) (tree : FileTree) (here : RealPath) (path : Text) : Attempt :=
  if path.isEmpty then ⟨none, tree⟩
  else
    match depth, tree.makeFolder here path with
    | depth + 1, .error .notFound =>
      match Path.parent? path with
      | none => ⟨some (.other "failed to create whole tree".toList), tree⟩
      | some parent =>
        (makeFoldersUpTo depth tree here parent).andThen (ensureFolder · here path)
    | _, _ => tree.ensureFolder here path

/-- Makes a folder and those above it that are missing. -/
def makeFolders (tree : FileTree) (here : RealPath) (path : Text) : Attempt :=
  makeFoldersUpTo path.length tree here path

/-- What is left to check of pieces that end with a slash: the walk to the folder that
holds the last name, without that name. -/
def piecesAbove (pieces : List Text) : List Text :=
  let named := Text.dropEndWhile List.isEmpty pieces
  match named.getLast? with
  | none => named
  | some name =>
    if Path.isIdle name || name = ['.', '.'] then named else named.dropLast ++ [['.']]

/-- Walks to the place of a file to write, following at most `links` links. Pieces that
end with a slash name a folder, even where nothing stands. -/
def walkToFile (tree : FileTree) (links : Nat) (here : RealPath) (pieces : List Text) :
    Except FileError RealPath :=
  if pieces.getLast? = some [] then
    match tree.walk links here (piecesAbove pieces) with
    | .error e => .error e
    | .ok _ => .error .isADirectory
  else
    match tree.advance here pieces, links with
    | .arrived (.vacant real), _ => .ok real
    | .arrived (.taken real), _ =>
      if tree.node? real = some .folder then .error .isADirectory else .ok real
    | .failed e, _ => .error e
    | .atLink _ _ _, 0 => .error .tooManyLinks
    | .atLink folder target left, links + 1 =>
      walkToFile tree links (startOf folder target) (Path.pieces target ++ left)

/-- Where a written path leads as the place of a file to write. -/
def locateFile (tree : FileTree) (here : RealPath) (path : Text) : Except FileError RealPath :=
  match checkPath path with
  | .error e => .error e
  | .ok _ => tree.walkToFile maxLinks (startOf here path) (Path.pieces path)

/-- Writes a file, in place of what it held before; the folder it is in must exist. -/
def writeFile (tree : FileTree) (here : RealPath) (path : Text) (content : Content) : Attempt :=
  match tree.locateFile here path with
  | .error e => ⟨some e, tree⟩
  | .ok real => ⟨none, tree.put real (.file content)⟩

/-- Writes a file after making the folders above it. -/
def write (tree : FileTree) (here : RealPath) (path : Text) (content : Content) : Attempt :=
  (tree.makeFolders here ((Path.parent? path).getD [])).andThen (writeFile · here path content)

/-- Makes a symbolic link after making the folders above it. -/
def link (tree : FileTree) (here : RealPath) (path target : Text) : Attempt :=
  (tree.makeFolders here ((Path.parent? path).getD [])).andThen fun tree =>
    match tree.locate here path with
    | .error e => ⟨some e, tree⟩
    | .ok (.taken _) => ⟨some .alreadyExists, tree⟩
    | .ok (.vacant real) => ⟨none, tree.put real (.link target)⟩

end Transclusion.FileTree
