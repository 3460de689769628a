import Transclusion.Text

/-! Values of a TOML document, and adding to its tables. A table may be added to only
in the way it came about: a header does not reopen a table, and a dotted key does not
reach into a table that a header made. -/
namespace Transclusion.Toml

/-- How a table came about. -/
inductive TableKind where
  /-- A header names it. -/
  | header
  /-- A header names a table below it. -/
  | aboveHeader
  /-- A dotted key goes through it. -/
  | dotted
  /-- It is written in braces. -/
  | inline
deriving DecidableEq, Repr

inductive Value where
  | string (text : Text)
  | boolean (value : Bool)
  | number
  | time
  | array (items : List Value)
  | table (kind : TableKind) (entries : List (Text × Value))
  /-- The tables of a header in double brackets. -/
  | tables (items : List (List (Text × Value)))

/-- The entries of a table. -/
abbrev Table := List (Text × Value)

namespace Table

def value? (table : Table) (key : Text) : Option Value :=
  (table.find? (·.1 = key)).map (·.2)

/-- The table with a value for a key, in place of an earlier one. -/
def set (table : Table) (key : Text) (value : Value) : Table :=
  if table.any (·.1 = key) then
    table.map fun entry => if entry.1 = key then (key, value) else entry
  else table ++ [(key, value)]

/-- The table with `change` made to the table at a path of keys. Missing tables on the
way are made with the kind `made`. -/
def modifyAt (made : TableKind) (change : TableKind → Table → Option Table) :
    (kind : TableKind) → List Text → Table → Option Table
  | kind, [], table => change kind table
  | _, key :: path, table =>
    match table.value? key with
    | none => (modifyAt made change made path []).map fun inner => table.set key (.table made inner)
    | some (.table kind inner) =>
      if kind = .inline || (made = .dotted && kind = .header) then none
      else (modifyAt made change kind path inner).map fun inner => table.set key (.table kind inner)
    | some (.tables items) =>
      match items.getLast? with
      | none => none
      | some last =>
        (modifyAt made change .header path last).map fun inner =>
          table.set key (.tables (items.dropLast ++ [inner]))
    | some _ => none

/-- Adds a value under a dotted key whose last part is `key`. -/
def addValue (path : List Text) (key : Text) (value : Value) (kind : TableKind) (table : Table) :
    Option Table :=
  modifyAt .dotted (fun reached inner =>
    if !path.isEmpty && reached ≠ .dotted then none
    else if (inner.value? key).isSome then none
    else some (inner.set key value)) kind path table

/-- Opens the table a header names. -/
def openTable (path : List Text) (key : Text) (table : Table) : Option Table :=
  modifyAt .aboveHeader (fun _ inner =>
    match inner.value? key with
    | none => some (inner.set key (.table .header []))
    | some (.table .aboveHeader entries) => some (inner.set key (.table .header entries))
    | some _ => none) .header path table

/-- Adds a table to those that a header in double brackets names. -/
def openTables (path : List Text) (key : Text) (table : Table) : Option Table :=
  modifyAt .aboveHeader (fun _ inner =>
    match inner.value? key with
    | none => some (inner.set key (.tables [[]]))
    | some (.tables items) => some (inner.set key (.tables (items ++ [[]])))
    | some _ => none) .header path table

end Table
end Transclusion.Toml
