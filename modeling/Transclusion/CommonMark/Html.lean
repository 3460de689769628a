import Transclusion.Text

/-! The seven kinds of HTML block: how a line starts one and what ends it. -/
namespace Transclusion.CommonMark

/-- The kinds of HTML block, by what opens them. -/
inductive HtmlKind where
  /-- A `script`, `pre`, `style` or `textarea` tag, up to a closing tag of those. -/
  | verbatim
  | comment
  | instruction
  | declaration
  | characterData
  /-- A tag of the block level, up to a blank line. -/
  | element
  /-- Any other tag alone on its line, up to a blank line. -/
  | loneTag
deriving DecidableEq, Repr

namespace Html

def isAsciiLetter (c : Char) : Bool := c.isAlpha

/-- White space inside a tag. -/
def isTagSpace (c : Char) : Bool :=
  c = ' ' || c = '\t' || c = '\n' || c = '\r' || c = '\x0b' || c = '\x0c'

def lower (text : Text) : Text := text.map Char.toLower

def verbatimNames : List Text :=
  ["script", "pre", "textarea", "style"].map String.toList

def elementNames : List Text :=
  ["address", "article", "aside", "base", "basefont", "blockquote", "body", "caption", "center",
    "col", "colgroup", "dd", "details", "dialog", "dir", "div", "dl", "dt", "fieldset",
    "figcaption", "figure", "footer", "form", "frame", "frameset", "h1", "h2", "h3", "h4", "h5",
    "h6", "head", "header", "hr", "html", "iframe", "legend", "li", "link", "main", "menu",
    "menuitem", "nav", "noframes", "ol", "optgroup", "option", "p", "param", "search", "section",
    "summary", "table", "tbody", "td", "tfoot", "th", "thead", "title", "tr", "track",
    "ul"].map String.toList

/-- A tag name at the front of a text: a letter, then letters, digits and hyphens. -/
def tagName (text : Text) : Text :=
  if text.startsWith isAsciiLetter then
    text.takeWhile fun c => c.isAlphanum || c = '-'
  else []

/-- The text behind one of `names`, in any case, when the tag name there is exactly
that name. -/
def afterName? (names : List Text) (text : Text) : Option Text :=
  let name := tagName text
  if names.contains (lower name) then some (text.drop name.length) else none

/-- An attribute value with its quotes, or a bare one; what follows it. -/
def afterValue? : Text → Option Text
  | '"' :: text => (Text.cutFirst? '"' text).map (·.2)
  | '\'' :: text => (Text.cutFirst? '\'' text).map (·.2)
  | text =>
    let bare := text.takeWhile fun c => !("\"'=<>`".toList.contains c) && 0x20 < c.toNat
    if bare.isEmpty then none else some (text.drop bare.length)

/-- What follows one attribute and the white space before it. -/
def afterAttribute? (text : Text) : Option Text :=
  let spaces := text.countWhile isTagSpace
  let name := text.drop spaces
  if spaces = 0 || !Text.startsWith (fun c => isAsciiLetter c || c = '_' || c = ':') name then none
  else
    let rest := name.dropWhile fun c => c.isAlphanum || "_.:-".toList.contains c
    match rest.dropWhile isTagSpace with
    | '=' :: value => afterValue? (value.dropWhile isTagSpace)
    | _ => some rest

/-- What follows all attributes. -/
def afterAttributes (text : Text) : Text :=
  match afterAttribute? text with
  | none => text
  | some rest => if _shorter : rest.length < text.length then afterAttributes rest else text
termination_by text.length

/-- What follows an opening or closing tag that is complete. -/
def afterTag? : Text → Option Text
  | '<' :: '/' :: text =>
    match tagName text with
    | [] => none
    | name => Text.stripPrefix? ['>'] ((text.drop name.length).dropWhile isTagSpace)
  | '<' :: text =>
    match tagName text with
    | [] => none
    | name =>
      match (afterAttributes (text.drop name.length)).dropWhile isTagSpace with
      | '/' :: '>' :: rest => some rest
      | '>' :: rest => some rest
      | _ => none
  | _ => none

/-- A text that holds `part`. -/
def holds (part : Text) (text : Text) : Bool :=
  match text with
  | [] => part.isEmpty
  | c :: rest => (Text.stripPrefix? part (c :: rest)).isSome || holds part rest

/-- The kind of HTML block a line starts. A lone tag does not break off a paragraph. -/
def opened? (text : Text) (inParagraph : Bool) : Option HtmlKind :=
  match text with
  | '<' :: rest =>
    let spaceOrEnd : Text → Bool
      | [] => true
      | c :: _ => isTagSpace c || c = '>'
    let spaceOrTagEnd : Text → Bool
      | '/' :: '>' :: _ => true
      | other => spaceOrEnd other
    if (afterName? verbatimNames rest).any spaceOrEnd then some .verbatim
    else if (Text.stripPrefix? "!--".toList rest).isSome then some .comment
    else if Text.startsWith (· = '?') rest then some .instruction
    else if (Text.stripPrefix? "![CDATA[".toList rest).isSome then some .characterData
    else if (Text.stripPrefix? ['!'] rest).any (Text.startsWith isAsciiLetter) then
      some .declaration
    else if (afterName? elementNames ((Text.stripPrefix? ['/'] rest).getD rest)).any
        spaceOrTagEnd then some .element
    else if !inParagraph && (afterTag? text).any (List.all · isTagSpace) then some .loneTag
    else none
  | _ => none

/-- Whether a line of an HTML block is its last. Kinds that a blank line ends have no
such line. -/
def closes (kind : HtmlKind) (line : Text) : Bool :=
  match kind with
  | .verbatim => verbatimNames.any fun name => holds ("</".toList ++ name ++ ['>']) (lower line)
  | .comment => holds "-->".toList line
  | .instruction => holds "?>".toList line
  | .declaration => holds ">".toList line
  | .characterData => holds "]]>".toList line
  | .element | .loneTag => false

/-- Whether a blank line ends a block of this kind. -/
def endsAtBlank : HtmlKind → Bool
  | .element | .loneTag => true
  | _ => false

end Html
end Transclusion.CommonMark
