import Transclusion.Text.WhiteSpace

/-! Link reference definitions at the start of a paragraph. A paragraph that consists
of them alone is not text, so an underline below it makes no heading. -/
namespace Transclusion.CommonMark.LinkDefinition

/-- Skips spaces, tabs and at most one line ending. -/
def skipSpace (text : Text) : Text :=
  match text.dropWhile isSpaceOrTab with
  | '\n' :: rest => rest.dropWhile isSpaceOrTab
  | rest => rest

/-- Takes a label up to its closing bracket: its characters and what follows. A
bracket inside needs a backslash. -/
def label? : Text → Option (Text × Text)
  | [] => none
  | ']' :: rest => some ([], rest)
  | '[' :: _ => none
  | '\\' :: c :: rest => (label? rest).map fun (label, after) => ('\\' :: c :: label, after)
  | c :: rest => (label? rest).map fun (label, after) => (c :: label, after)

/-- What follows a destination that began with `<`. -/
def afterPointed? : Text → Option Text
  | [] => none
  | '>' :: rest => some rest
  | '<' :: _ => none
  | '\n' :: _ => none
  | '\\' :: c :: rest => if c = '\n' then none else afterPointed? rest
  | _ :: rest => afterPointed? rest

/-- What follows a bare destination, in which parentheses are balanced; `depth` of
them are open. -/
def afterBare? (depth : Nat) : Text → Option Text
  | [] => if depth = 0 then some [] else none
  | '\\' :: c :: rest =>
    if c = ' ' || c.toNat < 0x20 then afterBare? depth (c :: rest) else afterBare? depth rest
  | '(' :: rest => afterBare? (depth + 1) rest
  | ')' :: rest => if depth = 0 then some (')' :: rest) else afterBare? (depth - 1) rest
  | c :: rest =>
    if c = ' ' || c.toNat < 0x20 || c.toNat = 0x7f then
      if depth = 0 then some (c :: rest) else none
    else afterBare? depth rest

/-- What follows a link destination. -/
def afterDestination? : Text → Option Text
  | '<' :: rest => afterPointed? rest
  | text =>
    match afterBare? 0 text with
    | some rest => if rest.length < text.length then some rest else none
    | none => none

/-- What follows a title up to the character `close`. -/
def afterTitleUntil? (close : Char) : Text → Option Text
  | [] => none
  | '\\' :: _ :: rest => afterTitleUntil? close rest
  | c :: rest =>
    if c = close then some rest
    else if c = '(' && close = ')' then none
    else afterTitleUntil? close rest

/-- What follows a link title. -/
def afterTitle? : Text → Option Text
  | '"' :: rest => afterTitleUntil? '"' rest
  | '\'' :: rest => afterTitleUntil? '\'' rest
  | '(' :: rest => afterTitleUntil? ')' rest
  | _ => none

/-- The next line, if nothing but spaces and tabs is left on this one. -/
def nextLine? (text : Text) : Option Text :=
  match text.dropWhile isSpaceOrTab with
  | [] => some []
  | '\n' :: rest => some rest
  | _ => none

/-- What follows one definition. A title that does not end its line is none, which is
an error only if it began on the line of the destination. -/
def after? : Text → Option Text
  | '[' :: text =>
    match label? text with
    | some (label, ':' :: rest) =>
      if label.all (fun c => isSpaceOrTab c || c = '\n') || 999 < label.length then none
      else
        match afterDestination? (skipSpace rest) with
        | none => none
        | some afterUrl =>
          let titleAt := skipSpace afterUrl
          let titled :=
            if titleAt.length < afterUrl.length then (afterTitle? titleAt).bind nextLine? else none
          match titled with
          | some next => some next
          | none => nextLine? afterUrl
    | _ => none
  | _ => none

/-- The text without the definitions at its start. -/
def skipAll (text : Text) : Text :=
  match after? text with
  | none => text
  | some rest => if _shorter : rest.length < text.length then skipAll rest else text
termination_by text.length

/-- Whether a paragraph holds more than definitions. -/
def leavesText (paragraph : Text) : Bool :=
  !(skipAll paragraph).all fun c => isSpaceOrTab c || c = '\n'

end Transclusion.CommonMark.LinkDefinition
