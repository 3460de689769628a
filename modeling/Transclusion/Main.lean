import Transclusion.Run

/-! The command line program. It answers the questions of a run from the real system and
carries out what the run decides. -/
namespace Transclusion.Main

/-- The cause behind an error of the system. -/
def causeOf (e : IO.Error) : FileError :=
  match e with
  | .noFileOrDirectory .. => .notFound
  | e => .other e.toString.toList

/-- The outcome of an action that may fail. -/
def attempt {α : Type} (action : IO α) : IO (Except FileError α) := do
  try
    let result ← action
    return .ok result
  catch e =>
    return .error (causeOf e)

def realPath (path : Text) : IO RealPath := do
  let real ← IO.FS.realPath (String.ofList path)
  return (Path.pieces real.toString.toList).filter (!·.isEmpty)

def readText (path : Text) : IO (Except FileError Text) := do
  match ← attempt (IO.FS.readBinFile (String.ofList path)) with
  | .error cause => return .error cause
  | .ok bytes =>
    match Content.ofBytes bytes.toList with
    | .text text => return .ok text
    | .binary _ => return .error .notText

def environment (names : List Text) : IO Environment := do
  let set ← names.filterMapM fun name => do
    let value ← IO.getEnv (String.ofList name)
    return value.map fun value => (name, value.toList)
  return ⟨set, "/".toList⟩

/-- The real system. Nothing is fetched over the web. -/
def host : Host IO where
  workingFolder := do return (← IO.currentDir).toString.toList
  realPath path := attempt (realPath path)
  isThere path := do return (← attempt (realPath path)).isOk
  read := readText
  textAt path := readText path.render
  get url := return Web.offline url
  environment := environment

def write (path text : Text) : IO Unit := do
  match Path.parent? path with
  | none | some [] => pure ()
  | some parent => IO.FS.createDirAll (String.ofList parent)
  IO.FS.writeFile (String.ofList path) (String.ofList text)

/-- Writes documents in order, up to the first failure. -/
def writeAll : List (Text × Text) → IO (Option FileError)
  | [] => return none
  | (path, text) :: rest => do
    match ← attempt (write path text) with
    | .error cause => return some cause
    | .ok _ => writeAll rest

def usage : String :=
  String.intercalate "\n"
    ["Fill fenced code blocks with snippets referenced by directives in their metadata", "",
      "Usage: markdown-remote-code [OPTIONS] <FILES>...", "", "Options:",
      "  -c, --config <CONFIG>                Config file",
      "      --root-dir <ROOT_DIR>            Value substituted for <rootDir> in directives",
      "      --preserve-trailing-newline      Keep the blank line after a final newline",
      "      --remove-redundant-indentations  Strip indentation shared by every line",
      "      --allow-outside-root             Let file= read outside the current directory",
      "  -i, --in-place                       Write results back to the files",
      "      --check                          Exit with status 1 if a file is not up to date",
      "  -h, --help                           Print help",
      "  -V, --version                        Print version", ""]

def explain : UsageError → String
  | .missingArgument => "error: no document was given\n"
  | .unknownArgument => "error: unexpected argument found\n"
  | .invalidValue => "error: a value is missing or empty\n"
  | .conflict => "error: an argument cannot be used here or more than once\n"
  | .tooManyValues => "error: a value was given to an option that takes none\n"
  | .help => usage
  | .version => "markdown-remote-code 0.1.0\n"

/-- Runs a command line and gives the outcome. -/
def run (line : CommandLine) : IO (Except Failure Run.Outcome) := do
  match ← Run.prepare CommonMark.fencedRanges host line with
  | .error e => return .error e
  | .ok rendered =>
    let effect := Run.effect line rendered
    IO.print (String.ofList effect.printed)
    match ← writeAll effect.writes with
    | some cause => return .error (.document (.io cause))
    | none => return .ok (.ofStale effect.stale)

end Transclusion.Main

open Transclusion in
def main (arguments : List String) : IO UInt32 := do
  match CommandLine.parse (arguments.map String.toList) with
  | .error e =>
    let text := Main.explain e
    if Run.usageExitCode e = 0 then IO.print text else IO.eprint text
    return UInt32.ofNat (Run.usageExitCode e)
  | .ok line =>
    let outcome ← Main.run line
    IO.eprint (String.ofList (Run.complaint outcome))
    return UInt32.ofNat (Run.exitCode outcome)
