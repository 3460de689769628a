import Transclusion.Fragment
import Transclusion.Meta

/-! Directives: a token `keyword=locator#fragment` that names a source and the lines
wanted of it. -/
namespace Transclusion

/-- Which source to fetch and which of its lines to keep. -/
structure Directive where
  kind : SourceKind
  locator : Text
  range : LineRange
deriving DecidableEq, Repr

namespace Directive

/-- Why a token is not a directive. -/
inductive SyntaxError where
  | unrecognized (token : Text)
  | emptyLocator (token : Text)
  | missingStart (token fragment : Text)
  | malformedRange (token fragment : Text)
deriving DecidableEq, Repr

def SyntaxError.message : SyntaxError → Text
  | unrecognized token => "Unable to parse file path ".toList ++ token
  | emptyLocator token => "Directive ".toList ++ token ++ " has an empty path".toList
  | missingStart token fragment =>
    "Line range #".toList ++ fragment ++ " in ".toList ++ token ++
      " has an end line but no start line".toList
  | malformedRange token fragment =>
    "Malformed line range #".toList ++ fragment ++ " in ".toList ++ token

/-- Stands for the root directory at the start of a locator. -/
def rootPlaceholder : Text := "<rootDir>".toList

/-- Puts a space for every backslash and space. -/
def unescape : Text → Text
  | '\\' :: ' ' :: rest => ' ' :: unescape rest
  | c :: rest => c :: unescape rest
  | [] => []

/-- The locator a written path stands for: a leading placeholder is replaced by the
root directory, then escaped spaces become plain ones. -/
def locatorOf (path rootDir : Text) : Text :=
  match Text.stripPrefix? rootPlaceholder path with
  | some rest => unescape (rootDir ++ rest)
  | none => unescape path

/-- Cuts the range off the end of `rest`, the part of `token` after its keyword. A
fragment that is no line range stays part of the path. -/
def cutRange (token rest : Text) : Except SyntaxError (Text × LineRange) :=
  match Text.cutLast? '#' rest with
  | none => .ok (rest, .whole)
  | some (path, fragment) =>
    match Fragment.read fragment with
    | .ok (some range) => .ok (path, range)
    | .ok none => .ok (rest, .whole)
    | .error .missingStart => .error (.missingStart token fragment)
    | .error .malformed => .error (.malformedRange token fragment)

/-- Reads a token. -/
def parse (token rootDir : Text) (prefixes : Prefixes) : Except SyntaxError Directive :=
  match prefixes.strip? token with
  | none => .error (.unrecognized token)
  | some (kind, rest) =>
    match cutRange token rest with
    | .error e => .error e
    | .ok ([], _) => .error (.emptyLocator token)
    | .ok (path, range) => .ok { kind, locator := locatorOf path rootDir, range }

end Directive
end Transclusion
