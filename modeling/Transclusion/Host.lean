import Transclusion.FileTree.Writing
import Transclusion.Web

/-! What the surroundings of a run can be asked for: files, pages and variables. The
same rewriting works over surroundings held as a value and over a real system. -/
namespace Transclusion

/-- Environment variables, and the home folder of the account. -/
structure Environment where
  /-- Names and values; the first entry of a name counts. -/
  entries : List (Text × Text)
  accountHome : Text
deriving DecidableEq, Repr

namespace Environment

def value? (environment : Environment) (name : Text) : Option Text :=
  (environment.entries.find? (·.1 = name)).map (·.2)

/-- The home folder: the variable `HOME` if it has a value. -/
def home (environment : Environment) : Text :=
  match environment.value? "HOME".toList with
  | none | some [] => environment.accountHome
  | some folder => folder

end Environment

/-- Questions about the surroundings, answered with the effects of `m`. -/
structure Host (m : Type → Type) where
  /-- The folder that relative paths start from. -/
  workingFolder : m Text
  /-- The real path of what a written path names. -/
  realPath : Text → m (Except FileError RealPath)
  isThere : Text → m Bool
  /-- The text of the file a written path names. -/
  read : Text → m (Except FileError Text)
  /-- The text of the file at a real path. -/
  textAt : RealPath → m (Except FileError Text)
  get : Url → m Reply
  /-- The variables with the given names, of those that are set. -/
  environment : List Text → m Environment

/-- Surroundings held as a value. -/
structure World where
  tree : FileTree
  /-- The folder that relative paths start from. -/
  here : RealPath
  web : Web
  environment : Environment

namespace World

/-- Answers about these surroundings. -/
def host (world : World) : Host Id where
  workingFolder := world.here.render
  realPath path := world.tree.realPath world.here path
  isThere path := world.tree.isThere world.here path
  read path := world.tree.read world.here path
  textAt path := world.tree.textAt path
  get url := world.web url
  environment _ := world.environment

/-- Writes a file: why that failed, if it did, and the surroundings after it. -/
def write (world : World) (path text : Text) : Option FileError × World :=
  let attempt := world.tree.write world.here path (.text text)
  (attempt.failure, { world with tree := attempt.tree })

end World
end Transclusion
