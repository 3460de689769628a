import Transclusion.Host
import Transclusion.Text.Alphanumeric

/-! Expansion as in a shell: `$NAME` and `${NAME:-fallback}` become the values of
variables, then a leading `~` becomes the home folder. -/
namespace Transclusion.Expansion

/-- A piece of a text with variables. -/
inductive Part where
  | literal (text : Text)
  /-- The value of a variable; without one the fallback, if there is one. -/
  | named (name : Text) (fallback : Option Text)
deriving DecidableEq, Repr

def isNameCharacter (c : Char) : Bool := isAlphanumeric c || c = '_'

/-- Cuts at the first `:-`. -/
def cutFallback? : Text → Option (Text × Text)
  | ':' :: '-' :: rest => some ([], rest)
  | c :: rest => (cutFallback? rest).map fun (name, fallback) => (c :: name, fallback)
  | [] => none

/-- The variable written between braces. A fallback needs a name before it. -/
def braced (inner : Text) : Part :=
  match cutFallback? inner with
  | some (c :: name, fallback) => .named (c :: name) (some fallback)
  | _ => .named inner none

/-- The parts of a text after a dollar sign, and the rest. -/
def afterDollar (text : Text) : Part × Text :=
  match text with
  | '{' :: rest =>
    match Text.cutFirst? '}' rest with
    | some (inner, after) => (braced inner, after)
    | none => (.literal ['$', '{'], rest)
  | '$' :: rest => (.literal ['$'], rest)
  | _ =>
    match text.takeWhile isNameCharacter with
    | [] => (.literal ['$'], text)
    | name => (.named name none, text.dropWhile isNameCharacter)

theorem cutFirst?_length {sep : Char} {text before after : Text}
    (cut : Text.cutFirst? sep text = some (before, after)) : after.length < text.length := by
  induction text generalizing before with
  | nil => simp [Text.cutFirst?] at cut
  | cons c rest ih =>
    unfold Text.cutFirst? at cut
    split at cut
    · simp only [Option.some.injEq, Prod.mk.injEq] at cut
      simp [← cut.2]
    · obtain ⟨⟨b, a⟩, inner, same⟩ := Option.map_eq_some_iff.mp cut
      simp only [Prod.mk.injEq] at same
      have := ih (same.2 ▸ inner)
      simp; omega

theorem length_afterDollar_le (text : Text) : (afterDollar text).2.length ≤ text.length := by
  unfold afterDollar
  split
  · next rest =>
    split
    · next inner after cut => have := cutFirst?_length cut; simp; omega
    · simp
  · simp
  · split
    · simp
    · exact (List.dropWhile_sublist _).length_le

/-- The parts of a text. -/
def parts (text : Text) : List Part :=
  match _found : text.dropWhile (· ≠ '$') with
  | [] => [.literal text]
  | _ :: rest =>
    .literal (text.takeWhile (· ≠ '$')) :: (afterDollar rest).1 :: parts (afterDollar rest).2
termination_by text.length
decreasing_by
  have shorter := length_afterDollar_le rest
  have whole := (List.dropWhile_sublist (fun c => decide (c ≠ '$')) (l := text)).length_le
  rw [_found] at whole
  simp only [List.length_cons] at whole
  omega

/-- The names of the variables in a text. -/
def names (text : Text) : List Text :=
  (parts text).filterMap fun
    | .literal _ => none
    | .named name _ => some name

/-- What a part stands for; nothing if a variable is not set and has no fallback. -/
def Part.value? (environment : Environment) : Part → Option Text
  | literal text => some text
  | named name fallback => (environment.value? name).or fallback

/-- The text with the values of its variables. -/
def substitute? (environment : Environment) (text : Text) : Option Text :=
  ((parts text).mapM (Part.value? environment)).map List.flatten

/-- The text with the home folder for a leading `~` that a slash or nothing follows. -/
def tilde (environment : Environment) (text : Text) : Text :=
  match text with
  | ['~'] => environment.home
  | '~' :: '/' :: rest => environment.home ++ '/' :: rest
  | _ => text

/-- Expands variables, then `~`. A `~` that came out of a variable stays. -/
def full? (environment : Environment) (text : Text) : Option Text :=
  (substitute? environment text).map fun expanded =>
    if text.head? ≠ some '~' && expanded.head? = some '~' then expanded
    else tilde environment expanded

end Transclusion.Expansion
