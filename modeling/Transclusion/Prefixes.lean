import Transclusion.Text

/-! The keywords that may stand before the `=` of a directive, each with the kind
of source it selects. -/
namespace Transclusion

/-- Where the content of a directive comes from. -/
inductive SourceKind where
  /-- A resource asked for over the web. -/
  | web
  /-- A file. -/
  | file
deriving DecidableEq, Repr

/-- Keywords in the order of their last registration. -/
structure Prefixes where
  entries : List (Text × SourceKind)
deriving DecidableEq, Repr

namespace Prefixes

/-- No keyword. -/
def empty : Prefixes := ⟨[]⟩

/-- Registers a keyword behind all others, in place of an earlier registration of
the same keyword. -/
def register (prefixes : Prefixes) (keyword : Text) (kind : SourceKind) : Prefixes :=
  ⟨prefixes.entries.filter (·.1 ≠ keyword) ++ [(keyword, kind)]⟩

/-- `url` for the web, `file` for files. -/
def standard : Prefixes :=
  (empty.register "url".toList .web).register "file".toList .file

def keywords (prefixes : Prefixes) : List Text := prefixes.entries.map (·.1)

/-- What follows `keyword=` when a text starts so. -/
def afterKeyword? (keyword token : Text) : Option Text :=
  (Text.stripPrefix? keyword token).bind (Text.stripPrefix? ['='])

/-- Takes the first registered keyword and its `=` off the front of a token. -/
def strip? (prefixes : Prefixes) (token : Text) : Option (SourceKind × Text) :=
  prefixes.entries.findSome? fun (keyword, kind) =>
    (afterKeyword? keyword token).map fun rest => (kind, rest)

end Prefixes
end Transclusion
