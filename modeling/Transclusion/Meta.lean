import Transclusion.Prefixes

/-! The words after the language of a code block. They are separated by single
spaces; a space directly after a backslash belongs to its word. -/
namespace Transclusion.Meta

/-- The tokens of a text that follows a backslash if `escaped` holds. -/
def tokensAfter (escaped : Bool) : Text → List Text
  | [] => [[]]
  | c :: rest =>
    if c = ' ' && !escaped then [] :: tokensAfter false rest
    else
      match tokensAfter (c = '\\') rest with
      | [] => [[c]]
      | token :: tokens => (c :: token) :: tokens

/-- The tokens of a block's metadata, empty ones included. -/
def tokens (text : Text) : List Text := tokensAfter false text

/-- The first token that starts with a registered keyword and `=`. -/
def directiveToken? (text : Text) (prefixes : Prefixes) : Option Text :=
  (tokens text).find? fun token => (prefixes.strip? token).isSome

end Transclusion.Meta
