import Transclusion.Text

/-! Paths as they are written: texts cut by slashes. Nothing here asks a file system,
so `..` is a name like any other. -/
namespace Transclusion.Path

def isAbsolute (path : Text) : Bool := path.head? = some '/'

/-- The parts between slashes; an absolute path starts with an empty one. -/
def pieces (path : Text) : List Text := path.splitOn '/'

/-- The path `other` means when it is written inside the directory `base`. -/
def join (base other : Text) : Text :=
  if isAbsolute other || base.isEmpty then other
  else if base.getLast? = some '/' then base ++ other
  else base ++ '/' :: other

/-- A piece that does not lead anywhere. -/
def isIdle (piece : Text) : Bool := piece.isEmpty || piece = ['.']

/-- The pieces above the last component, if there is one. -/
def above? (pieces : List Text) : Option (List Text) :=
  match Text.dropEndWhile isIdle pieces with
  | [] => none
  | named => some (Text.dropEndWhile isIdle named.dropLast)

/-- The path without its last component, if it has one. Slashes and single dots at
the end belong to no component, a single dot at the start is one. -/
def parent? (path : Text) : Option Text :=
  match pieces path with
  | [] => none
  | head :: rest =>
    if isAbsolute path then (above? rest).map fun left => '/' :: Text.joinWith '/' left
    else if head = ['.'] then
      some (((above? rest).map fun left => Text.joinWith '/' (head :: left)).getD [])
    else (above? (head :: rest)).map (Text.joinWith '/')

/-- The directory of a document, as a path that can be joined to. -/
def directory (path : Text) : Text :=
  match parent? path with
  | none | some [] => ['.']
  | some parent => parent

end Transclusion.Path
