import Transclusion.Text.WhiteSpace
import Transclusion.Toml.Quoted
import Transclusion.Toml.Scalar

/-! Reading TOML documents: keys with values, and headers that open tables. -/
namespace Transclusion.Toml

def skipSpace (text : Text) : Text := text.dropWhile isSpaceOrTab

def isBareKey (c : Char) : Bool := c.isAlphanum || c = '_' || c = '-'

/-- What is left of the line behind white space and a comment must be nothing; the text
after the line. -/
def endLine? (text : Text) : Option Text :=
  let rest :=
    match skipSpace text with
    | '#' :: comment => comment.dropWhile Quoted.isPlain
    | rest => rest
  match rest with
  | [] => some []
  | _ => Quoted.afterNewline? rest

/-- Skips white space, comments and line endings; `fuel` bounds the lines. -/
def skipLines? (fuel : Nat) (text : Text) : Option Text :=
  match skipSpace text with
  | '#' :: comment =>
    match fuel with
    | 0 => none
    | fuel + 1 => (endLine? ('#' :: comment)).bind (skipLines? fuel)
  | rest =>
    match fuel, Quoted.afterNewline? rest with
    | fuel + 1, some rest => skipLines? fuel rest
    | _, _ => some rest

/-- One part of a key, and what follows. -/
def keyPart? (text : Text) : Option (Text × Text) :=
  match text.takeWhile isBareKey with
  | [] => Quoted.single? text
  | bare => some (bare, text.dropWhile isBareKey)

/-- A key with its parts between dots, and what follows; the last part stands alone. -/
def key? (fuel : Nat) (text : Text) : Option (List Text × Text × Text) :=
  match fuel, keyPart? (skipSpace text) with
  | 0, _ | _, none => none
  | fuel + 1, some (part, rest) =>
    match skipSpace rest with
    | '.' :: more => (key? fuel more).map fun (path, last, rest) => (part :: path, last, rest)
    | rest => some ([], part, rest)

/-- Characters that end a word. -/
def endsWord (c : Char) : Bool :=
  [' ', '\t', '\r', '\n', ',', ']', '}', '#', '=', '[', '{', '"', '\''].contains c

/-- The word at the front of a text; a date and a time may be one word with a space
between them. -/
def word (text : Text) : Text × Text :=
  let first := text.takeWhile (!endsWord ·)
  let rest := text.dropWhile (!endsWord ·)
  match Scalar.afterDate? first, rest with
  | some [], ' ' :: digit :: more =>
    if digit.isDigit then
      (first ++ ' ' :: (digit :: more).takeWhile (!endsWord ·),
        (digit :: more).dropWhile (!endsWord ·))
    else (first, rest)
  | _, _ => (first, rest)

mutual

/-- A value, and what follows; `fuel` bounds the values and separators inside. -/
def value? (fuel : Nat) (text : Text) : Option (Value × Text) :=
  match fuel, text with
  | 0, _ => none
  | fuel + 1, '[' :: rest => (items? fuel rest).map fun (items, rest) => (.array items, rest)
  | fuel + 1, '{' :: rest =>
    (entries? fuel [] rest).map fun (entries, rest) => (.table .inline entries, rest)
  | _ + 1, c :: rest =>
    if c = '"' || c = '\'' then
      (Quoted.read? (c :: rest)).map fun (contents, rest) => (.string contents, rest)
    else
      let (first, rest) := word (c :: rest)
      (Scalar.read? first).map fun value => (value, rest)
  | _ + 1, [] => none

/-- The items of an array up to its bracket, and what follows. -/
def items? (fuel : Nat) (text : Text) : Option (List Value × Text) :=
  match fuel, skipLines? text.length text with
  | 0, _ | _, none => none
  | _, some (']' :: rest) => some ([], rest)
  | fuel + 1, some text => do
    let (item, rest) ← value? fuel text
    match ← skipLines? rest.length rest with
    | ']' :: rest => pure ([item], rest)
    | ',' :: rest =>
      let (items, rest) ← items? fuel rest
      pure (item :: items, rest)
    | _ => none

/-- The entries of a table in braces, added to those before, and what follows. -/
def entries? (fuel : Nat) (before : Table) (text : Text) : Option (Table × Text) :=
  match fuel, skipLines? text.length text with
  | 0, _ | _, none => none
  | _, some ('}' :: rest) => some (before, rest)
  | fuel + 1, some text => do
    let (path, last, rest) ← key? text.length text
    let rest ← Text.stripPrefix? ['='] rest
    let (value, rest) ← value? fuel (skipSpace rest)
    let table ← Table.addValue path last value .header before
    match ← skipLines? rest.length rest with
    | '}' :: rest => pure (table, rest)
    | ',' :: rest => entries? fuel table rest
    | _ => none

end

/-- What has been read of a document: the whole of it, and the keys of the header that
is in force. -/
structure Reading where
  root : Table
  header : List Text

/-- Adds a value to the table that is in force. -/
def Reading.add? (reading : Reading) (path : List Text) (last : Text) (value : Value) :
    Option Reading :=
  (Table.modifyAt .aboveHeader (fun _ table => Table.addValue path last value .header table)
    .header reading.header reading.root).map fun root => { reading with root }

/-- Reads the lines of a document; `fuel` bounds their number. -/
def readLines? (fuel : Nat) (reading : Reading) (text : Text) : Option Reading :=
  match fuel, skipLines? text.length text with
  | _, none => none
  | _, some [] => some reading
  | 0, _ => none
  | fuel + 1, some ('[' :: '[' :: rest) => do
    let (path, last, rest) ← key? rest.length rest
    let rest ← Text.stripPrefix? [']', ']'] rest
    let root ← Table.openTables path last reading.root
    readLines? fuel ⟨root, path ++ [last]⟩ (← endLine? rest)
  | fuel + 1, some ('[' :: rest) => do
    let (path, last, rest) ← key? rest.length rest
    let rest ← Text.stripPrefix? [']'] rest
    let root ← Table.openTable path last reading.root
    readLines? fuel ⟨root, path ++ [last]⟩ (← endLine? rest)
  | fuel + 1, some text => do
    let (path, last, rest) ← key? text.length text
    let rest ← Text.stripPrefix? ['='] rest
    let (value, rest) ← value? (rest.length + 1) (skipSpace rest)
    let reading ← reading.add? path last value
    readLines? fuel reading (← endLine? rest)

/-- The table a document describes. A byte order mark in front is passed over. -/
def read? (text : Text) : Option Table :=
  let body := (Text.stripPrefix? ['\ufeff'] text).getD text
  (readLines? (body.length + 1) ⟨[], []⟩ body).map (·.root)

end Transclusion.Toml
