import Transclusion.FileError
import Transclusion.Path
import Transclusion.Text.Utf8

/-! A file system as a value: folders, files and symbolic links, and the walk that
finds what a written path means. -/
namespace Transclusion

/-- The names from the root of the file system down to a file, without links. -/
abbrev RealPath := List Text

namespace RealPath

/-- The path as it is written. -/
def render : RealPath → Text
  | [] => ['/']
  | names => (names.map ('/' :: ·)).flatten

/-- A path in or at `root`, compared name by name. -/
def isUnder (path root : RealPath) : Bool := root.isPrefixOf path

end RealPath

/-- The bytes of a file: a text, or something that is not UTF-8. -/
inductive Content where
  | text (text : Text)
  | binary (bytes : List UInt8)
deriving DecidableEq, Repr

namespace Content

/-- The content made of some bytes. -/
def ofBytes (bytes : List UInt8) : Content :=
  match String.fromUTF8? (ByteArray.mk bytes.toArray) with
  | some decoded => .text decoded.toList
  | none => .binary bytes

end Content

inductive Node where
  | folder
  | file (content : Content)
  | link (target : Text)
deriving DecidableEq, Repr

/-- What stands at each real path; the first entry of a path counts. -/
structure FileTree where
  entries : List (RealPath × Node)
deriving DecidableEq, Repr

namespace FileTree

/-- The root folder alone. -/
def empty : FileTree := ⟨[]⟩

/-- What stands at a real path. The root is always a folder. -/
def node? (tree : FileTree) : RealPath → Option Node
  | [] => some .folder
  | path => (tree.entries.find? (·.1 = path)).map (·.2)

/-- The tree with a node put at a real path. -/
def put (tree : FileTree) (path : RealPath) (node : Node) : FileTree :=
  ⟨(path, node) :: tree.entries.filter (·.1 ≠ path)⟩

/-- What a walk arrives at. -/
inductive Place where
  /-- Something stands here. -/
  | taken (path : RealPath)
  /-- Nothing stands here, in a folder that exists. -/
  | vacant (path : RealPath)
deriving DecidableEq, Repr

/-- How many bytes a name may have. -/
def maxName : Nat := 255

/-- How many links one walk may follow. -/
def maxLinks : Nat := 40

/-- How many bytes a written path may have. -/
def maxPath : Nat := 4095

/-- Where a path starts. -/
def startOf (folder : RealPath) (path : Text) : RealPath :=
  if Path.isAbsolute path then [] else folder

/-- Where a walk gets without following a link. -/
inductive Stop where
  | arrived (place : Place)
  | failed (error : FileError)
  /-- A link in the folder `here`, and the pieces behind it. -/
  | atLink (here : RealPath) (target : Text) (left : List Text)
deriving DecidableEq, Repr

/-- Walks the pieces of a path from the place `here` up to the first link. Every piece
needs a folder to start from. -/
def advance (tree : FileTree) (here : RealPath) : List Text → Stop
  | [] => .arrived (.taken here)
  | piece :: pieces =>
    if tree.node? here ≠ some .folder then .failed .notADirectory
    else if Path.isIdle piece then advance tree here pieces
    else if piece = ['.', '.'] then advance tree here.dropLast pieces
    else if maxName < Text.byteLength piece then .failed .nameTooLong
    else
      match tree.node? (here ++ [piece]) with
      | none => if pieces.isEmpty then .arrived (.vacant (here ++ [piece])) else .failed .notFound
      | some (.link target) => .atLink here target pieces
      | some _ => advance tree (here ++ [piece]) pieces

/-- Walks the pieces of a path from the place `here`, following at most `links` links. -/
def walk (tree : FileTree) (links : Nat) (here : RealPath) (pieces : List Text) :
    Except FileError Place :=
  match tree.advance here pieces, links with
  | .arrived place, _ => .ok place
  | .failed e, _ => .error e
  | .atLink _ _ _, 0 => .error .tooManyLinks
  | .atLink folder target left, links + 1 =>
    walk tree links (startOf folder target) (Path.pieces target ++ left)

/-- A path that can be walked: it is neither empty nor too long and holds no NUL. -/
def checkPath (path : Text) : Except FileError Unit :=
  if path.contains '\x00' then .error .nulInName
  else if path.isEmpty then .error .notFound
  else if maxPath < Text.byteLength path then .error .nameTooLong
  else .ok ()

/-- Where a written path leads from the folder `here`, links followed. -/
def locate (tree : FileTree) (here : RealPath) (path : Text) : Except FileError Place :=
  match checkPath path with
  | .error e => .error e
  | .ok _ => tree.walk maxLinks (startOf here path) (Path.pieces path)

/-- The real path of what a written path names. -/
def realPath (tree : FileTree) (here : RealPath) (path : Text) : Except FileError RealPath :=
  match tree.locate here path with
  | .error e => .error e
  | .ok (.vacant _) => .error .notFound
  | .ok (.taken real) => .ok real

/-- Whether a written path names anything. -/
def isThere (tree : FileTree) (here : RealPath) (path : Text) : Bool :=
  (tree.realPath here path).isOk

/-- Whether a written path names a folder. -/
def isFolder (tree : FileTree) (here : RealPath) (path : Text) : Bool :=
  match tree.realPath here path with
  | .ok real => tree.node? real = some .folder
  | .error _ => false

/-- The text of the file at a real path. -/
def textAt (tree : FileTree) (real : RealPath) : Except FileError Text :=
  match tree.node? real with
  | some (.file (.text text)) => .ok text
  | some (.file (.binary _)) => .error .notText
  | some .folder => .error .isADirectory
  | some (.link _) | none => .error .notFound

/-- The text of the file a written path names. -/
def read (tree : FileTree) (here : RealPath) (path : Text) : Except FileError Text :=
  match tree.realPath here path with
  | .error e => .error e
  | .ok real => tree.textAt real

/-- The files and the empty folders below a folder, with their paths from there; a
folder has no content. -/
def listing (tree : FileTree) (root : RealPath) : List (Text × Option Content) :=
  let below := tree.entries.filter fun (path, _) => RealPath.isUnder path root && path ≠ root
  let listed := below.filterMap fun (path, node) =>
    let name := Text.joinWith '/' (path.drop root.length)
    match node with
    | .file content => some (name, some content)
    | .folder =>
      if below.any fun (other, _) => RealPath.isUnder other path && other ≠ path then none
      else some (name ++ ['/'], none)
    | .link _ => none
  listed.mergeSort fun a b => a.1.noLater b.1

end FileTree
end Transclusion
