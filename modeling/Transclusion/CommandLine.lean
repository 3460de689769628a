import Transclusion.Config
import Transclusion.Document

/-! The command line: documents, options and the mode of a run. -/
namespace Transclusion

structure CommandLine where
  /-- The documents, in the order given. -/
  files : List Text
  config : Option Text
  rootDir : Option Text
  keepFinalNewline : Bool
  unindent : Bool
  allowOutsideRoot : Bool
  /-- Write results back to the documents. -/
  inPlace : Bool
  /-- Report which documents are out of date. -/
  check : Bool
deriving DecidableEq, Repr

/-- Why a command line starts no run. -/
inductive UsageError where
  | missingArgument
  | unknownArgument
  | invalidValue
  | conflict
  | tooManyValues
  /-- Help was asked for. -/
  | help
  /-- The version was asked for. -/
  | version
deriving DecidableEq, Repr

namespace CommandLine

def empty : CommandLine := ⟨[], none, none, false, false, false, false, false⟩

/-- Options that take a value. -/
inductive Setting where
  | config
  | rootDir
deriving DecidableEq, Repr

/-- Options that take none. -/
inductive Flag where
  | keepFinalNewline
  | unindent
  | allowOutsideRoot
  | inPlace
  | check
  | help
  | version
deriving DecidableEq, Repr

/-- What has been read but not yet taken: values wait until something else follows. -/
inductive Waiting where
  | nothing
  | files (values : List Text)
  | setting (name : Setting) (value : Option Text)
deriving DecidableEq, Repr

/-- A command line read up to some argument. -/
structure Reading where
  line : CommandLine
  waiting : Waiting
deriving DecidableEq, Repr

/-- Gives an option its value, which it may get once. -/
def give (line : CommandLine) (name : Setting) (value : Text) : Except UsageError CommandLine :=
  match name with
  | .config =>
    if line.config.isSome then .error .conflict
    else if value.isEmpty then .error .invalidValue
    else .ok { line with config := some value }
  | .rootDir =>
    if line.rootDir.isSome then .error .conflict
    else .ok { line with rootDir := some value }

/-- Takes what waits. -/
def Reading.settle (reading : Reading) : Except UsageError CommandLine :=
  match reading.waiting with
  | .nothing => .ok reading.line
  | .files values =>
    if values.any List.isEmpty then .error .invalidValue
    else .ok { reading.line with files := reading.line.files ++ values }
  | .setting _ none => .error .invalidValue
  | .setting name (some value) => reading.line.give name value

/-- Raises a flag, which may be raised once. -/
def raise (line : CommandLine) (flag : Flag) : Except UsageError CommandLine :=
  let once (raised : Bool) (line : CommandLine) : Except UsageError CommandLine :=
    if raised then .error .conflict else .ok line
  match flag with
  | .keepFinalNewline => once line.keepFinalNewline { line with keepFinalNewline := true }
  | .unindent => once line.unindent { line with unindent := true }
  | .allowOutsideRoot => once line.allowOutsideRoot { line with allowOutsideRoot := true }
  | .inPlace => once line.inPlace { line with inPlace := true }
  | .check => once line.check { line with check := true }
  | .help => .error .help
  | .version => .error .version

def longFlags : List (String × Flag) :=
  [("preserve-trailing-newline", .keepFinalNewline), ("remove-redundant-indentations", .unindent),
    ("allow-outside-root", .allowOutsideRoot), ("in-place", .inPlace), ("check", .check),
    ("help", .help), ("version", .version)]

def longSettings : List (String × Setting) := [("config", .config), ("root-dir", .rootDir)]

def Reading.raise (reading : Reading) (flag : Flag) : Except UsageError Reading :=
  match reading.settle with
  | .error e => .error e
  | .ok line => (line.raise flag).map fun line => ⟨line, .nothing⟩

/-- Gives an option the value written with it, or lets it wait for one. -/
def Reading.set (reading : Reading) (name : Setting) (value : Option Text) :
    Except UsageError Reading :=
  match reading.settle, value with
  | .error e, _ => .error e
  | .ok line, none => .ok ⟨line, .setting name none⟩
  | .ok line, some value => (line.give name value).map fun line => ⟨line, .nothing⟩

/-- Reads an argument behind two hyphens. -/
def Reading.long (reading : Reading) (text : Text) : Except UsageError Reading :=
  let (name, value) :=
    match Text.cutFirst? '=' text with
    | some (name, value) => (name, some value)
    | none => (text, none)
  match longFlags.find? (·.1.toList = name), longSettings.find? (·.1.toList = name) with
  | some (_, flag), _ => if value.isSome then .error .tooManyValues else reading.raise flag
  | none, some (_, setting) => reading.set setting value
  | none, none => .error .unknownArgument

/-- Reads the letters behind one hyphen. The value of an option may follow its letter. -/
def Reading.short (reading : Reading) : Text → Except UsageError Reading
  | [] => .ok reading
  | 'i' :: rest => (reading.raise .inPlace).bind (Reading.short · rest)
  | 'h' :: _ => reading.raise .help
  | 'V' :: _ => reading.raise .version
  | 'c' :: rest =>
    match rest with
    | [] => reading.set .config none
    | '=' :: value => reading.set .config (some value)
    | value => reading.set .config (some value)
  | _ => .error .unknownArgument

/-- Reads a document, or the value an option waits for. -/
def Reading.plain (reading : Reading) (value : Text) (afterHyphens : Bool) :
    Except UsageError Reading :=
  match reading.waiting with
  | .files values => .ok ⟨reading.line, .files (values ++ [value])⟩
  | .setting name none =>
    if afterHyphens then .error .invalidValue
    else .ok ⟨reading.line, .setting name (some value)⟩
  | _ => reading.settle.map fun line => ⟨line, .files [value]⟩

/-- Reads the arguments in order. Behind `--` all are documents. -/
def readFrom (reading : Reading) (afterHyphens : Bool) : List Text → Except UsageError Reading
  | [] => .ok reading
  | argument :: rest =>
    let next : Except UsageError (Reading × Bool) :=
      if afterHyphens then (reading.plain argument true).map (·, true)
      else
        match argument with
        | ['-', '-'] => .ok (reading, true)
        | '-' :: '-' :: text => (reading.long text).map (·, false)
        | '-' :: c :: text => (reading.short (c :: text)).map (·, false)
        | _ => (reading.plain argument false).map (·, false)
    match next with
    | .error e => .error e
    | .ok (reading, afterHyphens) => readFrom reading afterHyphens rest

/-- Reads a command line. Writing back and checking exclude each other, and there must
be a document. -/
def parse (arguments : List Text) : Except UsageError CommandLine :=
  match (readFrom ⟨empty, .nothing⟩ false arguments).bind Reading.settle with
  | .error e => .error e
  | .ok line =>
    if line.inPlace && line.check then .error .conflict
    else if line.files.isEmpty then .error .missingArgument
    else .ok line

/-- How documents are rewritten under a configuration; what the command line says goes
first. -/
def options (line : CommandLine) (config : Config) : Options where
  keepFinalNewline := line.keepFinalNewline || config.keepFinalNewline
  unindent := line.unindent || config.unindent
  rootDir := (line.rootDir.or config.rootDir).getD []
  prefixes := .standard

end CommandLine
end Transclusion
