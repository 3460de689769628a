import Transclusion.Url.Error
import Transclusion.Url.Percent

/-! Hosts of URLs: names, addresses of four bytes, and addresses of eight groups in
brackets. -/
namespace Transclusion.Url

/-- A number of an address: decimal, octal behind `0` or hexadecimal behind `0x`. -/
def number? (text : Text) : Option Nat :=
  match text with
  | [] => none
  | '0' :: 'x' :: digits => Text.numberIn? 16 digits
  | '0' :: 'X' :: digits => Text.numberIn? 16 digits
  | '0' :: digits => Text.numberIn? 8 digits
  | digits => Text.numberIn? 10 digits

/-- The labels of a domain without a dot at its end. -/
def labels (domain : Text) : List Text :=
  let parts := domain.splitOn '.'
  if parts.getLast? = some [] && 1 < parts.length then parts.dropLast else parts

/-- Whether the last label makes the domain an address. -/
def endsInNumber (domain : Text) : Bool :=
  match (labels domain).getLast? with
  | none => false
  | some last =>
    !last.isEmpty && (last.all Char.isDigit ||
      ((Text.stripPrefix? ['0'] last).isSome && (number? last).isSome))

/-- The four bytes of an address whose last part fills the bytes that are left. -/
def ipv4? (domain : Text) : Option (List Nat) :=
  match (labels domain).mapM number? with
  | none => none
  | some parts =>
    match parts.getLast? with
    | none => none
    | some last =>
      if 4 < parts.length || parts.dropLast.any (255 < ·) then none
      else if Nat.pow 256 (5 - parts.length) ≤ last then none
      else
        let value := parts.dropLast.zipIdx.foldl
          (fun total (part, i) => total + part * Nat.pow 256 (3 - i)) last
        some ([3, 2, 1, 0].map fun i => value / Nat.pow 256 i % 256)

/-- Cuts at the first `::`. -/
def cutDoubleColon? : Text → Option (Text × Text)
  | ':' :: ':' :: rest => some ([], rest)
  | c :: rest => (cutDoubleColon? rest).map fun (front, back) => (c :: front, back)
  | [] => none

/-- The eight groups of an address in brackets; `::` stands for groups of zero, and the
last two may be written as four bytes. -/
def ipv6? (text : Text) : Option (List Nat) :=
  let group? (part : Text) : Option (List Nat) :=
    if part.isEmpty || 4 < part.length then none
    else (Text.numberIn? 16 part).map ([·])
  let last? (part : Text) : Option (List Nat) :=
    if part.contains '.' then
      let bytes := (part.splitOn '.').mapM fun digits =>
        if digits.isEmpty || !digits.all Char.isDigit ||
            (1 < digits.length && digits.head? = some '0') || 255 < Text.decimal digits then none
        else some (Text.decimal digits)
      match bytes with
      | some [a, b, c, d] => some [256 * a + b, 256 * c + d]
      | _ => none
    else group? part
  let groups? (text : Text) : Option (List Nat) :=
    if text.isEmpty then some []
    else
      let parts := text.splitOn ':'
      match parts.dropLast.mapM group?, parts.getLast?.bind last? with
      | some front, some back => some (front.flatten ++ back)
      | _, _ => none
  match cutDoubleColon? text with
  | none =>
    match groups? text with
    | some groups => if groups.length = 8 then some groups else none
    | none => none
  | some (front, back) =>
    match groups? front, groups? back with
    | some front', some back' =>
      if front.contains '.' || 7 < front'.length + back'.length then none
      else some (front' ++ List.replicate (8 - front'.length - back'.length) 0 ++ back')
    | _, _ => none

/-- A group of an address in hexadecimal. -/
def hexText (n : Nat) : Text := Nat.toDigits 16 n

/-- The first longest run of zero groups, as its start and length. -/
def zeroRun (groups : List Nat) : Nat × Nat :=
  (List.range groups.length).foldl (fun (start, length) i =>
    let run := ((groups.drop i).takeWhile (· = 0)).length
    if length < run then (i, run) else (start, length)) (0, 1)

def renderIpv6 (groups : List Nat) : Text :=
  let join (part : List Nat) := Text.joinWith ':' (part.map hexText)
  let (start, length) := zeroRun groups
  if length < 2 then join groups
  else join (groups.take start) ++ "::".toList ++ join (groups.drop (start + length))

/-- Characters no domain may hold. -/
def isForbidden (c : Char) : Bool :=
  c.toNat ≤ 0x20 || c.toNat = 0x7f || "#/:<>?@[\\]^`\x7b|\x7d%".toList.contains c

/-- The host of a URL of a scheme the web knows. -/
def host? (text : Text) : Except Error Text :=
  match text with
  | '[' :: inner =>
    if inner.getLast? = some ']' then
      match ipv6? inner.dropLast with
      | some groups => .ok ('[' :: renderIpv6 groups ++ [']'])
      | none => .error .ipv6
    else .error .ipv6
  | _ =>
    let domain := (percentDecode text).map Char.toLower
    if domain.isEmpty then .error .emptyHost
    else if domain.any isForbidden then .error .domain
    else if endsInNumber domain then
      match ipv4? domain with
      | some bytes => .ok (Text.joinWith '.' (bytes.map Text.ofNat))
      | none => .error .ipv4
    else .ok domain

/-- The host of a URL of any other scheme. -/
def opaqueHost? (text : Text) : Except Error Text :=
  match text with
  | '[' :: _ => host? text
  | _ =>
    if text.any fun c => isForbidden c && c ≠ '%' then .error .hostCharacter
    else .ok (percentEncode [] text)

end Transclusion.Url
