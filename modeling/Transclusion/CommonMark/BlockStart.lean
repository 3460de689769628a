import Transclusion.CommonMark.Cursor
import Transclusion.Fence
import Transclusion.Text.WhiteSpace

/-! The marks by which a line starts or ends a block: fences, number signs,
underlines, thematic breaks and list markers. -/
namespace Transclusion.CommonMark

/-- The fence that opens a block: at least three markers, and no backtick behind
backticks. -/
def openingFence? (rest : Text) : Option Fence :=
  match rest with
  | [] => none
  | c :: _ =>
    let length := rest.countWhile (· = c)
    if length < 3 then none
    else if c = '~' then some ⟨c, length⟩
    else if c = '`' && !(rest.drop length).contains '`' then some ⟨c, length⟩
    else none

/-- Whether a line closes a block opened by `fence`. -/
def isClosingFence (fence : Fence) (cursor : Cursor) : Bool :=
  let length := cursor.rest.countWhile (· = fence.marker)
  !cursor.isIndented && fence.length ≤ length && (cursor.rest.drop length).all isSpaceOrTab

/-- One to six number signs, then white space or nothing. -/
def isHashHeading (rest : Text) : Bool :=
  let length := rest.countWhile (· = '#')
  0 < length && length ≤ 6 && ((rest.drop length).head?.all isSpaceOrTab)

/-- A run of equals signs or hyphens, then spaces and tabs. -/
def isUnderline (rest : Text) : Bool :=
  match rest with
  | [] => false
  | c :: _ =>
    (c = '=' || c = '-') && (rest.dropWhile (· = c)).all isSpaceOrTab

/-- At least three of one of `*`, `-` and `_`, with spaces and tabs between. -/
def isThematicBreak (rest : Text) : Bool :=
  match rest with
  | [] => false
  | c :: _ =>
    (c = '*' || c = '-' || c = '_') && 3 ≤ rest.count c &&
      rest.all fun d => d = c || isSpaceOrTab d

/-- The length of a list marker, and whether a list that it starts may break off a
paragraph. -/
def listMarker? (rest : Text) : Option (Nat × Bool) :=
  match rest with
  | [] => none
  | c :: _ =>
    if c = '-' || c = '*' || c = '+' then some (1, true)
    else
      let digits := rest.takeWhile Char.isDigit
      if digits.isEmpty || 9 < digits.length then none
      else
        match rest.drop digits.length with
        | d :: _ =>
          if d = '.' || d = ')' then some (digits.length + 1, Text.decimal digits = 1) else none
        | [] => none

end Transclusion.CommonMark
