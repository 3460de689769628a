import Transclusion.Url.Host

/-! Absolute URLs: reading one as browsers do, and writing it in normal form. Names of
hosts are taken letter by letter, in lower case. -/
namespace Transclusion

/-- A URL that names a host. -/
structure Url where
  scheme : Text
  /-- User name and password with the `@` behind them, or nothing. -/
  credentials : Text
  host : Text
  /-- The port, unless it is the one the scheme stands for. -/
  port : Option Nat
  path : Text
  query : Option Text
  fragment : Option Text
deriving DecidableEq, Repr

namespace Url

/-! ### Paths -/

/-- A segment that means the directory itself. -/
def isDot (segment : Text) : Bool :=
  [".", "%2e"].contains (String.ofList (segment.map Char.toLower))

/-- A segment that means the directory above. -/
def isDotDot (segment : Text) : Bool :=
  ["..", ".%2e", "%2e.", "%2e%2e"].contains (String.ofList (segment.map Char.toLower))

/-- The segments of a path with the dots resolved, last first. -/
def resolveDots (above : List Text) : List Text → List Text
  | [] => above
  | [last] =>
    if isDotDot last then [] :: above.tail
    else if isDot last then [] :: above
    else last :: above
  | segment :: rest =>
    if isDotDot segment then resolveDots above.tail rest
    else if isDot segment then resolveDots above rest
    else resolveDots (segment :: above) rest

/-- The normal form of a path that starts at the root. -/
def normalPath (special : Bool) (text : Text) : Text :=
  let cut := if special then text.map fun c => if c = '\\' then '/' else c else text
  let segments := match cut with
    | '/' :: rest => rest.splitOn '/'
    | rest => rest.splitOn '/'
  ((resolveDots [] segments).reverse.map fun segment => '/' :: percentEncode inPath segment).flatten

/-! ### Whole URLs -/

/-- The port a scheme stands for. -/
def defaultPort? (scheme : Text) : Option Nat :=
  if scheme = "http".toList || scheme = "ws".toList then some 80
  else if scheme = "https".toList || scheme = "wss".toList then some 443
  else if scheme = "ftp".toList then some 21
  else none

/-- The text without controls and spaces at its ends, and without line breaks and
tabs. -/
def clean (text : Text) : Text :=
  let isControl (c : Char) := c.toNat ≤ 0x20
  (Text.dropEndWhile isControl (text.dropWhile isControl)).filter fun c =>
    c ≠ '\t' && c ≠ '\n' && c ≠ '\r'

/-- The scheme of a URL, in lower case, and what follows its colon. -/
def scheme? (text : Text) : Option (Text × Text) :=
  match Text.cutFirst? ':' text with
  | some (name, rest) =>
    if Text.startsWith Char.isAlpha name &&
        name.all (fun c => c.isAlphanum || c = '+' || c = '-' || c = '.') then
      some (name.map Char.toLower, rest)
    else none
  | none => none

/-- A part cut off at the first character that satisfies `p`. -/
def cutAt (p : Char → Bool) (text : Text) : Text × Text :=
  (text.takeWhile (!p ·), text.dropWhile (!p ·))

/-- User name and password as they are written. -/
def renderCredentials (text : Text) : Text :=
  match Text.cutFirst? ':' text with
  | none => if text.isEmpty then [] else percentEncode inCredentials text ++ ['@']
  | some (user, []) => if user.isEmpty then [] else percentEncode inCredentials user ++ ['@']
  | some (user, password) =>
    percentEncode inCredentials user ++ ':' :: percentEncode inCredentials password ++ ['@']

/-- A host and the port behind it; colons in brackets belong to the host. -/
def cutPort (text : Text) : Text × Option Text :=
  let host := if text.head? = some '[' then (text.takeWhile (· ≠ ']')).length else 0
  let (front, rest) := cutAt (· = ':') (text.drop host)
  match rest with
  | _ :: port => (text.take host ++ front, some port)
  | [] => (text, none)

def port? (scheme : Text) : Option Text → Except Error (Option Nat)
  | none | some [] => .ok none
  | some digits =>
    if !digits.all Char.isDigit || 65535 < Text.decimal digits then .error .port
    else if defaultPort? scheme = some (Text.decimal digits) then .ok none
    else .ok (some (Text.decimal digits))

def isSlash (c : Char) : Bool := c = '/' || c = '\\'

/-- Whether the host of a URL ends before a character. -/
def endsHost (special : Bool) (c : Char) : Bool :=
  c = '/' || c = '?' || c = '#' || (special && c = '\\')

/-- The URL of a host and of the path, query and fragment behind it. -/
def ofParts (scheme : Text) (special : Bool) (credentials host : Text) (port : Option Nat)
    (tail : Text) : Url :=
  let (beforeFragment, fragment) := cutAt (· = '#') tail
  let (path, query) := cutAt (· = '?') beforeFragment
  { scheme, credentials, host, port
    path := if path.isEmpty && !special then [] else normalPath special path
    query := query.tail?.map (percentEncode (if special then inSpecialQuery else inQuery))
    fragment := fragment.tail?.map (percentEncode inFragment) }

/-- Reads what follows the slashes after the scheme. -/
def afterSlashes (scheme : Text) (special : Bool) (text : Text) : Except Error Url :=
  let (authority, tail) := cutAt (endsHost special) text
  let (credentials, place) := (Text.cutLast? '@' authority).getD ([], authority)
  let (hostText, portText) := cutPort place
  match if special then host? hostText else opaqueHost? hostText with
  | .error e => .error e
  | .ok [] => .error .emptyHost
  | .ok host =>
    (port? scheme portText).map fun port =>
      ofParts scheme special (renderCredentials credentials) host port tail

/-- The letter of a drive, which is no host. -/
def isDrive (text : Text) : Bool :=
  match text with
  | [letter, mark] => letter.isAlpha && (mark = ':' || mark = '|')
  | _ => false

/-- Reads what follows the scheme `file`, behind which a host stands alone or not at
all. -/
def afterFile (rest : Text) : Except Error Url :=
  match rest with
  | a :: b :: place =>
    let (hostText, tail) := cutAt (endsHost true) place
    if !isSlash a || !isSlash b || hostText.isEmpty || isDrive hostText then .error .emptyHost
    else
      match host? hostText with
      | .error e => .error e
      | .ok host =>
        if host = "localhost".toList then .error .emptyHost
        else .ok (ofParts "file".toList true [] host none tail)
  | _ => .error .emptyHost

/-- Reads a URL. -/
def parse (text : Text) : Except Error Url :=
  match scheme? (clean text) with
  | none => .error .relative
  | some (scheme, rest) =>
    if scheme = "file".toList then afterFile rest
    else if (defaultPort? scheme).isSome then afterSlashes scheme true (rest.dropWhile isSlash)
    else
      match rest with
      | '/' :: '/' :: place => afterSlashes scheme false place
      | _ => .error .emptyHost

/-- The URL in normal form. -/
def render (url : Url) : Text :=
  url.scheme ++ "://".toList ++ url.credentials ++ url.host ++
    (match url.port with
     | some port => ':' :: Text.ofNat port
     | none => []) ++
    url.path ++ (url.query.map ('?' :: ·)).getD [] ++ (url.fragment.map ('#' :: ·)).getD []

/-- The port to connect to. -/
def portOrDefault (url : Url) : Nat := (url.port.or (defaultPort? url.scheme)).getD 0

/-- The host is an address, so that no name has to be looked up. -/
def hasAddress (url : Url) : Bool :=
  url.host.head? = some '[' || endsInNumber url.host

end Url
end Transclusion
