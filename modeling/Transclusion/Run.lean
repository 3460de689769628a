import Transclusion.CommandLine
import Transclusion.DocumentFile
import Transclusion.LocalSource
import Transclusion.Markdown

/-! A run over the documents of a command line. Every document is rewritten before
anything is printed or written, so a failure leaves nothing behind. -/
namespace Transclusion

/-- Why a run failed. -/
inductive Failure where
  | config (cause : ConfigError)
  | noConfig (path : Text)
  | document (cause : DocumentError)
  | rewrite (path : Text) (cause : RewriteError)
deriving DecidableEq, Repr

namespace Failure

/-- The texts of an error and of the errors that caused it, outermost first. -/
def chain : Failure → List Text
  | config (.unreadable path cause) => [(ConfigError.unreadable path cause).message, cause.message]
  | config (.malformed path) => [(ConfigError.malformed path).message]
  | noConfig path => ["Config file ".toList ++ path ++ " does not exist".toList]
  | document (.notFound path) => [(DocumentError.notFound path).message]
  | document (.io cause) => [(DocumentError.io cause).message, cause.message]
  | rewrite path cause =>
    ["Failed to rewrite ".toList ++ path, cause.message, cause.causeMessage] ++
      match cause with
      | .fetch _ (.io _ cause) => [cause.message]
      | _ => []

def message (failure : Failure) : Text :=
  match failure.chain with
  | [] => []
  | first :: rest => first ++ (rest.map fun text => ": ".toList ++ text).flatten

end Failure

/-- A document and what it is rewritten to. -/
structure Rendered where
  path : Text
  before : Text
  after : Text
deriving DecidableEq, Repr

def Rendered.changed (rendered : Rendered) : Bool := rendered.after ≠ rendered.before

/-- What a run does once all documents are rewritten. -/
structure Effect where
  /-- The documents found out of date. -/
  stale : List Text
  printed : Text
  /-- The documents to write, with their new texts. -/
  writes : List (Text × Text)
deriving DecidableEq, Repr

namespace Run

variable {m : Type → Type} [Monad m]

/-- The configuration of a run: a file that is named must be there. -/
def config (host : Host m) (line : CommandLine) : m (Except Failure Config) := do
  match line.config with
  | some path =>
    match ← Config.load host path with
    | .error cause => pure (.error (.config cause))
    | .ok none => pure (.error (.noConfig path))
    | .ok (some config) => pure (.ok config)
  | none =>
    match ← Config.load host (← Config.defaultPath host) with
    | .error cause => pure (.error (.config cause))
    | .ok config => pure (.ok (config.getD .standard))

/-- Rewrites one document with the sources its folder gives. -/
def render (scan : Scanner) (host : Host m) (options : Options) (root : Text)
    (allowOutside : Bool) (path : Text) : m (Except Failure Rendered) := do
  match ← DocumentFile.read host path with
  | .error cause => pure (.error (.document cause))
  | .ok before =>
    let source : LocalSource := ⟨Path.directory path, root, allowOutside⟩
    match ← Document.rewriteWith scan (source.orWeb host) options before with
    | .error cause => pure (.error (.rewrite path cause))
    | .ok after => pure (.ok ⟨path, before, after⟩)

/-- Rewrites the documents in order, up to the first failure. -/
def renderAll (scan : Scanner) (host : Host m) (options : Options) (root : Text)
    (allowOutside : Bool) : List Text → m (Except Failure (List Rendered))
  | [] => pure (.ok [])
  | path :: paths => do
    match ← render scan host options root allowOutside path with
    | .error e => pure (.error e)
    | .ok rendered =>
      match ← renderAll scan host options root allowOutside paths with
      | .error e => pure (.error e)
      | .ok more => pure (.ok (rendered :: more))

/-- Everything a run finds out before it acts. -/
def prepare (scan : Scanner) (host : Host m) (line : CommandLine) :
    m (Except Failure (List Rendered)) := do
  match ← config host line with
  | .error e => pure (.error e)
  | .ok config =>
    renderAll scan host (line.options config) (← host.workingFolder)
      (line.allowOutsideRoot || config.allowOutsideRoot) line.files

/-- What the mode of a run makes of the rewritten documents. -/
def effect (line : CommandLine) (rendered : List Rendered) : Effect :=
  if line.check then ⟨(rendered.filter Rendered.changed).map Rendered.path, [], []⟩
  else if line.inPlace then
    ⟨[], [],
      (rendered.filter Rendered.changed).map fun document => (document.path, document.after)⟩
  else ⟨[], (rendered.map Rendered.after).flatten, []⟩

/-- The surroundings after documents were written in order, up to the first failure. -/
def writeAll (world : World) : List (Text × Text) → Option FileError × World
  | [] => (none, world)
  | (path, text) :: rest =>
    match world.write path text with
    | (some cause, world) => (some cause, world)
    | (none, world) => writeAll world rest

/-- How a run ended. -/
inductive Outcome where
  | upToDate
  | stale (paths : List Text)
deriving DecidableEq, Repr

/-- Nothing is to be done if no document is stale. -/
def Outcome.ofStale : List Text → Outcome
  | [] => upToDate
  | paths => stale paths

/-- A run over surroundings held as a value. -/
structure Result where
  outcome : Except Failure Outcome
  printed : Text
  world : World

/-- Runs a command line over documents whose fenced blocks are where the scanner finds them. -/
def runWith (scan : Scanner) (world : World) (line : CommandLine) : Result :=
  match prepare scan world.host line with
  | .error e => ⟨.error e, [], world⟩
  | .ok rendered =>
    let effect := effect line rendered
    match writeAll world effect.writes with
    | (some cause, world) => ⟨.error (.document (.io cause)), effect.printed, world⟩
    | (none, world) =>
      ⟨.ok (Outcome.ofStale effect.stale), effect.printed, world⟩

/-- Runs a command line over Markdown documents. -/
def run (world : World) (line : CommandLine) : Result :=
  runWith CommonMark.fencedRanges world line

/-- The exit code of a run. -/
def exitCode : Except Failure Outcome → Nat
  | .ok .upToDate => 0
  | .ok (.stale _) => 1
  | .error _ => 2

/-- The exit code for a command line that starts no run. -/
def usageExitCode : UsageError → Nat
  | .help | .version => 0
  | _ => 2

/-- What a run says beside its output. -/
def complaint : Except Failure Outcome → Text
  | .ok .upToDate => []
  | .ok (.stale paths) => (paths.map fun path => path ++ " is out of date\n".toList).flatten
  | .error e => "Error: ".toList ++ e.message ++ ['\n']

end Run
end Transclusion
