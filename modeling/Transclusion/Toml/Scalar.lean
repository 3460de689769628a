import Transclusion.Text.Hexadecimal
import Transclusion.Toml.Value

/-! TOML values that are written without quotes or brackets: truth values, numbers,
dates and times. -/
namespace Transclusion.Toml.Scalar

/-- The digits of a run in which single underscores may stand between digits. -/
def digits? (base : Nat) (text : Text) : Option (List Nat) :=
  let groups := text.splitOn '_'
  if groups.any List.isEmpty then none
  else Text.digitsIn? base groups.flatten

/-- A sign in front of a number, and the number. -/
def signed (text : Text) : Bool × Text :=
  match text with
  | '-' :: rest => (true, rest)
  | '+' :: rest => (false, rest)
  | _ => (false, text)

/-- Digits of the base ten without a zero in front of others. -/
def wholeNumber? (text : Text) : Option (List Nat) :=
  (digits? 10 text).filter fun digits => digits.length = 1 || digits.head? ≠ some 0

/-- An integer of at most 128 bits. -/
def isInteger (text : Text) : Bool :=
  let fits (digits : Option (List Nat)) (base limit : Nat) : Bool :=
    digits.any fun digits => Text.ofDigits base digits < limit
  match text with
  | '0' :: 'x' :: rest => fits (digits? 16 rest) 16 (1 <<< 128)
  | '0' :: 'o' :: rest => fits (digits? 8 rest) 8 (1 <<< 128)
  | '0' :: 'b' :: rest => fits (digits? 2 rest) 2 (1 <<< 128)
  | _ =>
    let (negative, rest) := signed text
    fits (wholeNumber? rest) 10 (if negative then 1 <<< 127 + 1 else 1 <<< 128)

/-- The least number that double precision rounds to infinity. -/
def infinite : Nat := 1 <<< 1024 - 1 <<< 970

/-- Whether `mantissa * 10 ^ exponent` stays finite in double precision. -/
def isFinite (mantissa : List Nat) (exponent : Int) : Bool :=
  let significant := mantissa.dropWhile (· = 0)
  let magnitude := (significant.length : Int) + exponent
  if significant.isEmpty || magnitude < 300 then true
  else if 320 < magnitude then false
  else
    let value := Text.ofDigits 10 significant
    if exponent < 0 then value < infinite * Nat.pow 10 exponent.natAbs
    else value * Nat.pow 10 exponent.natAbs < infinite

/-- A number with a fraction or an exponent, or one that is not finite. -/
def isFloat (text : Text) : Bool :=
  let (_, body) := signed text
  if body = "inf".toList || body = "nan".toList then true
  else
    let (mantissa, exponent) :=
      match Text.cutFirst? 'e' (body.map fun c => if c = 'E' then 'e' else c) with
      | some (mantissa, exponent) => (mantissa, some exponent)
      | none => (body, none)
    let power : Option Int :=
      match exponent with
      | none => some 0
      | some exponent =>
        let (negative, rest) := signed exponent
        (digits? 10 rest).map fun digits =>
          if negative then -(Text.ofDigits 10 digits : Int) else (Text.ofDigits 10 digits : Int)
    match power, Text.cutFirst? '.' mantissa with
    | none, _ => false
    | some power, none =>
      exponent.isSome && (wholeNumber? mantissa).any fun whole => isFinite whole power
    | some power, some (whole, fraction) =>
      match wholeNumber? whole, digits? 10 fraction with
      | some whole, some fraction => isFinite (whole ++ fraction) (power - fraction.length)
      | _, _ => false

/-- Takes a number of exactly `count` digits between two bounds. -/
def field? (count least most : Nat) (text : Text) : Option (Nat × Text) :=
  let digits := text.take count
  if digits.length = count && digits.all Char.isDigit then
    let value := Text.decimal digits
    if least ≤ value && value ≤ most then some (value, text.drop count) else none
  else none

def isLeapYear (year : Nat) : Bool := year % 4 = 0 && (year % 100 ≠ 0 || year % 400 = 0)

/-- The days of a month. -/
def daysIn (year month : Nat) : Nat :=
  if month = 2 then (if isLeapYear year then 29 else 28)
  else if month = 4 || month = 6 || month = 9 || month = 11 then 30 else 31

/-- What follows a date. -/
def afterDate? (text : Text) : Option Text := do
  let (year, rest) ← field? 4 0 9999 text
  let rest ← Text.stripPrefix? ['-'] rest
  let (month, rest) ← field? 2 1 12 rest
  let rest ← Text.stripPrefix? ['-'] rest
  let (_, rest) ← field? 2 1 (daysIn year month) rest
  pure rest

/-- What follows a time of day. Seconds may be left out. -/
def afterTime? (text : Text) : Option Text := do
  let (_, rest) ← field? 2 0 23 text
  let rest ← Text.stripPrefix? [':'] rest
  let (_, rest) ← field? 2 0 59 rest
  match rest with
  | ':' :: seconds =>
    let (_, rest) ← field? 2 0 60 seconds
    match rest with
    | '.' :: fraction =>
      if Text.startsWith Char.isDigit fraction then some (fraction.dropWhile Char.isDigit) else none
    | _ => some rest
  | _ => some rest

/-- An offset from universal time, or none. -/
def isOffset (text : Text) : Bool :=
  match text with
  | [] => true
  | ['Z'] => true
  | ['z'] => true
  | sign :: rest =>
    (sign = '+' || sign = '-') &&
      ((do
        let (_, rest) ← field? 2 0 23 rest
        let rest ← Text.stripPrefix? [':'] rest
        let (_, rest) ← field? 2 0 59 rest
        pure rest.isEmpty : Option Bool).getD false)

/-- A date, a time of day, or both and perhaps an offset. -/
def isTime (text : Text) : Bool :=
  match afterDate? text with
  | some [] => true
  | some (separator :: rest) =>
    (separator = 'T' || separator = 't' || separator = ' ') && (afterTime? rest).any isOffset
  | none => (afterTime? text).any List.isEmpty

/-- The value of a word. -/
def read? (word : Text) : Option Value :=
  if word = "true".toList then some (.boolean true)
  else if word = "false".toList then some (.boolean false)
  else if isInteger word || isFloat word then some .number
  else if isTime word then some .time
  else none

end Transclusion.Toml.Scalar
