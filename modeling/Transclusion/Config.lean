import Transclusion.Expansion
import Transclusion.Toml.Document

/-! The configuration file: options that hold for every run. -/
namespace Transclusion

structure Config where
  /-- Replaces the root placeholder in locators. -/
  rootDir : Option Text
  keepFinalNewline : Bool
  unindent : Bool
  /-- Sources may lie outside the working folder. -/
  allowOutsideRoot : Bool
deriving DecidableEq, Repr

/-- Why a configuration file could not be used. -/
inductive ConfigError where
  | unreadable (path : Text) (cause : FileError)
  | malformed (path : Text)
deriving DecidableEq, Repr

def ConfigError.message : ConfigError → Text
  | unreadable path cause =>
    "Failed to read config file at ".toList ++ path ++ ": ".toList ++ cause.message
  | malformed path =>
    "Failed to parse config file at ".toList ++ path ++ ": TOML parse error".toList

namespace Config

/-- What holds without a file. -/
def standard : Config := ⟨none, false, false, false⟩

/-- The text of a key; a value of another kind is an error. -/
def text? (table : Toml.Table) (key : String) : Option (Option Text) :=
  match table.value? key.toList with
  | none => some none
  | some (.string text) => some (some text)
  | some _ => none

/-- The truth value of a key, false by default; a value of another kind is an error. -/
def flag? (table : Toml.Table) (key : String) : Option Bool :=
  match table.value? key.toList with
  | none => some false
  | some (.boolean value) => some value
  | some _ => none

/-- The options in a table. Keys of no meaning are passed over. -/
def ofTable? (table : Toml.Table) : Option Config := do
  pure {
    rootDir := ← text? table "root_dir"
    keepFinalNewline := ← flag? table "preserve_trailing_newline"
    unindent := ← flag? table "remove_redundant_indentations"
    allowOutsideRoot := ← flag? table "allow_outside_root" }

/-- Reads the text of a configuration file. -/
def read? (text : Text) : Option Config := (Toml.read? text).bind ofTable?

variable {m : Type → Type} [Monad m]

/-- A text with its variables and `~` expanded, or as it is if that fails. -/
def expand (host : Host m) (text : Text) : m Text := do
  let environment ← host.environment ("HOME".toList :: Expansion.names text)
  pure ((Expansion.full? environment text).getD text)

/-- Where the configuration file is by default. -/
def defaultPath (host : Host m) : m Text := do
  let environment ← host.environment ["HOME".toList]
  pure (Path.join (Expansion.tilde environment "~/.config/markdown-remote-code".toList)
    "config.toml".toList)

/-- The configuration in a file, if there is such a file. -/
def load (host : Host m) (path : Text) : m (Except ConfigError (Option Config)) := do
  if ← host.isThere path then
    match ← host.read path with
    | .error cause => pure (.error (.unreadable path cause))
    | .ok text =>
      match read? text with
      | none => pure (.error (.malformed path))
      | some config =>
        match config.rootDir with
        | none => pure (.ok (some config))
        | some rootDir => do
          let rootDir ← expand host rootDir
          pure (.ok (some { config with rootDir := some rootDir }))
  else pure (.ok none)

end Config
end Transclusion
