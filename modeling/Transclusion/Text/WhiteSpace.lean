import Transclusion.Text

/-! White space: the twenty-five characters with the Unicode property
`White_Space`, and trimming by that property. -/
namespace Transclusion

/-- The ranges of code points with the property `White_Space`, in order. -/
def whiteSpaceRanges : List (Nat × Nat) :=
  [(0x9, 0xd), (0x20, 0x20), (0x85, 0x85), (0xa0, 0xa0), (0x1680, 0x1680), (0x2000, 0x200a),
    (0x2028, 0x2029), (0x202f, 0x202f), (0x205f, 0x205f), (0x3000, 0x3000)]

/-- Whether a character is white space. -/
def isWhiteSpace (c : Char) : Bool :=
  whiteSpaceRanges.any fun (first, last) => first ≤ c.toNat && c.toNat ≤ last

/-- The white space inside a line of Markdown or TOML. -/
def isSpaceOrTab (c : Char) : Bool := c = ' ' || c = '\t'

/-- Every character that separates words in plain ASCII text is white space. -/
theorem isWhiteSpace_of_isWhitespace {c : Char} (h : c.isWhitespace = true) :
    isWhiteSpace c = true := by
  simp only [Char.isWhitespace, Bool.or_eq_true, decide_eq_true_eq] at h
  rcases h with ((rfl | rfl) | rfl) | rfl <;> decide

theorem isWhiteSpace_of_isSpaceOrTab {c : Char} (blank : isSpaceOrTab c = true) :
    isWhiteSpace c = true := by
  simp only [isSpaceOrTab, Bool.or_eq_true, decide_eq_true_eq] at blank
  rcases blank with rfl | rfl <;> decide

namespace Text

/-- Without the white space in front. -/
def trimStart (text : Text) : Text := text.dropWhile isWhiteSpace

/-- Without the white space at the end. -/
def trimEnd (text : Text) : Text := dropEndWhile isWhiteSpace text

/-- Without the white space at either end. -/
def trim (text : Text) : Text := text.trimStart.trimEnd

/-- The first run of characters that are not white space. -/
def firstWord? (text : Text) : Option Text :=
  match text.trimStart.takeWhile (!isWhiteSpace ·) with
  | [] => none
  | word => some word

end Text
end Transclusion
