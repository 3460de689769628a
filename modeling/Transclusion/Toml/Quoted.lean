import Transclusion.Text.Hexadecimal
import Transclusion.Text.WhiteSpace

/-! TOML strings: basic ones in double quotes with escapes, literal ones in single
quotes, and both over several lines in threefold quotes. -/
namespace Transclusion.Toml.Quoted

/-- A character that may stand in a string or a comment: any but the controls, of which
the tab is allowed. -/
def isPlain (c : Char) : Bool := c = '\t' || (0x20 ≤ c.toNat && c.toNat ≠ 0x7f)

/-- The character with a code of exactly `count` hexadecimal digits, and what follows. -/
def coded? (count : Nat) (text : Text) : Option (Char × Text) :=
  let digits := text.take count
  if digits.length ≠ count then none
  else
    match Text.numberIn? 16 digits with
    | none => none
    | some code => if code.isValidChar then some (Char.ofNat code, text.drop count) else none

/-- The character an escape stands for, given what follows its backslash. -/
def escape? (text : Text) : Option (Char × Text) :=
  match text with
  | 'b' :: rest => some ('\x08', rest)
  | 't' :: rest => some ('\t', rest)
  | 'n' :: rest => some ('\n', rest)
  | 'f' :: rest => some ('\x0c', rest)
  | 'r' :: rest => some ('\r', rest)
  | 'e' :: rest => some ('\x1b', rest)
  | '"' :: rest => some ('"', rest)
  | '\\' :: rest => some ('\\', rest)
  | 'x' :: rest => coded? 2 rest
  | 'u' :: rest => coded? 4 rest
  | 'U' :: rest => coded? 8 rest
  | _ => none

/-- What follows a line ending. -/
def afterNewline? (text : Text) : Option Text :=
  match text with
  | '\n' :: rest => some rest
  | '\r' :: '\n' :: rest => some rest
  | _ => none

/-- What follows white space with a line ending in it, and all white space behind. -/
def afterFold? (text : Text) : Option Text :=
  (afterNewline? (text.dropWhile isSpaceOrTab)).map fun rest =>
    rest.dropWhile fun c => isSpaceOrTab c || c = '\n' || c = '\r'

/-- The contents of a basic string up to its quote, and what follows; `fuel` bounds the
characters. -/
def basic? (fuel : Nat) (text : Text) : Option (Text × Text) :=
  match fuel, text with
  | 0, _ | _, [] => none
  | _, '"' :: rest => some ([], rest)
  | fuel + 1, '\\' :: rest => do
    let (c, rest) ← escape? rest
    let (contents, rest) ← basic? fuel rest
    pure (c :: contents, rest)
  | fuel + 1, c :: rest =>
    if isPlain c then (basic? fuel rest).map fun (contents, rest) => (c :: contents, rest)
    else none

/-- The contents of a literal string up to its quote, and what follows. -/
def literal? : Text → Option (Text × Text)
  | [] => none
  | '\'' :: rest => some ([], rest)
  | c :: rest =>
    if isPlain c then (literal? rest).map fun (contents, rest) => (c :: contents, rest) else none

/-- The quotes that belong to the contents where a run of at least three ends a string
over several lines, and what follows. At most two do. -/
def closingRun? (quote : Char) (text : Text) : Option (Text × Text) :=
  let run := text.countWhile (· = quote)
  if run < 3 then none
  else
    let inner := min (run - 3) 2
    some (List.replicate inner quote, text.drop (inner + 3))

/-- The contents of a basic string over several lines, and what follows. -/
def multilineBasic? (fuel : Nat) (text : Text) : Option (Text × Text) :=
  match fuel, text with
  | 0, _ | _, [] => none
  | fuel + 1, '\\' :: rest =>
    match afterFold? rest with
    | some rest => multilineBasic? fuel rest
    | none => do
      let (c, rest) ← escape? rest
      let (contents, rest) ← multilineBasic? fuel rest
      pure (c :: contents, rest)
  | fuel + 1, c :: rest =>
    match closingRun? '"' (c :: rest) with
    | some closed => some closed
    | none =>
      match afterNewline? (c :: rest) with
      | some rest =>
        (multilineBasic? fuel rest).map fun (contents, rest) => ('\n' :: contents, rest)
      | none =>
        if isPlain c then
          (multilineBasic? fuel rest).map fun (contents, rest) => (c :: contents, rest)
        else none

/-- The contents of a literal string over several lines, and what follows. -/
def multilineLiteral? (fuel : Nat) (text : Text) : Option (Text × Text) :=
  match fuel, text with
  | 0, _ | _, [] => none
  | fuel + 1, c :: rest =>
    match closingRun? '\'' (c :: rest) with
    | some closed => some closed
    | none =>
      match afterNewline? (c :: rest) with
      | some rest =>
        (multilineLiteral? fuel rest).map fun (contents, rest) => ('\n' :: contents, rest)
      | none =>
        if isPlain c then
          (multilineLiteral? fuel rest).map fun (contents, rest) => (c :: contents, rest)
        else none

/-- Without the line ending right behind the opening quotes. -/
def dropFirstNewline (text : Text) : Text := (afterNewline? text).getD text

/-- A string on one line, as keys may be written, and what follows. -/
def single? (text : Text) : Option (Text × Text) :=
  match text with
  | '"' :: rest => basic? (rest.length + 1) rest
  | '\'' :: rest => literal? rest
  | _ => none

/-- A string of any form, and what follows. -/
def read? (text : Text) : Option (Text × Text) :=
  match text with
  | '"' :: '"' :: '"' :: rest => multilineBasic? (rest.length + 1) (dropFirstNewline rest)
  | '\'' :: '\'' :: '\'' :: rest => multilineLiteral? (rest.length + 1) (dropFirstNewline rest)
  | _ => single? text

end Transclusion.Toml.Quoted
