import Transclusion.Text

/-! Reading a line of a CommonMark document from the left. Only columns matter for
nesting, so a tab in the white space is as many columns as it takes to the next
multiple of four, and a container may use up a part of them. -/
namespace Transclusion.CommonMark

/-- A place in a line. -/
structure Cursor where
  /-- The column reached. -/
  column : Nat
  /-- The columns of spaces and tabs that follow. -/
  indent : Nat
  /-- The line after those, empty if nothing else follows. -/
  rest : Text
deriving DecidableEq, Repr

namespace Cursor

/-- Measures the spaces and tabs in front of a text, `indent` columns of which are
passed already. -/
def measure (column indent : Nat) : Text → Cursor
  | ' ' :: text => measure column (indent + 1) text
  | '\t' :: text => measure column (indent + (4 - (column + indent) % 4)) text
  | text => ⟨column, indent, text⟩

/-- The cursor in front of a text that starts in column `column`. -/
def before (column : Nat) (text : Text) : Cursor := measure column 0 text

/-- Nothing but spaces and tabs is left. -/
def isBlank (cursor : Cursor) : Bool := cursor.rest.isEmpty

/-- Four columns of white space make a line of code, not the start of a block. -/
def isIndented (cursor : Cursor) : Bool := 4 ≤ cursor.indent

/-- The cursor after `columns` of the white space. -/
def skipIndent (cursor : Cursor) (columns : Nat) : Cursor :=
  { cursor with column := cursor.column + columns, indent := cursor.indent - columns }

/-- The cursor after the white space and `count` characters. -/
def skip (cursor : Cursor) (count : Nat) : Cursor :=
  before (cursor.column + cursor.indent + count) (cursor.rest.drop count)

theorem length_rest_measure_le (column indent : Nat) (text : Text) :
    (measure column indent text).rest.length ≤ text.length := by
  fun_induction measure column indent text with
  | case1 => simp; omega
  | case2 => simp; omega
  | case3 => simp

theorem length_rest_skip_lt {cursor : Cursor} {count : Nat} (positive : 0 < count)
    (left : cursor.rest ≠ []) : (cursor.skip count).rest.length < cursor.rest.length := by
  have bound := length_rest_measure_le (cursor.column + cursor.indent + count) 0
    (cursor.rest.drop count)
  have nonempty := List.length_pos_iff.mpr left
  simp only [List.length_drop] at bound
  show (measure _ _ _).rest.length < _
  omega

end Cursor
end Transclusion.CommonMark
