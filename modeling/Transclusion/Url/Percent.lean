import Transclusion.Text.Hexadecimal

/-! Percent signs in URLs: a byte that may not stand as itself is a percent sign and two
hexadecimal digits. -/
namespace Transclusion.Url

def hexDigit (n : Nat) : Char := "0123456789ABCDEF".toList[n % 16]?.getD '0'

/-- A byte as a percent sign and two digits. -/
def percentByte (byte : UInt8) : Text :=
  ['%', hexDigit (byte.toNat / 16), hexDigit byte.toNat]

/-- The text with the characters of `special`, the controls and everything beyond ASCII
written as percent signs. -/
def percentEncode (special : Text) (text : Text) : Text :=
  (text.map fun c =>
    if c.toNat < 0x20 || 0x7e < c.toNat || special.contains c then
      ((String.singleton c).toUTF8.toList.map percentByte).flatten
    else [c]).flatten

def inFragment : Text := " \"<>`".toList
def inPath : Text := inFragment ++ "#?\x7b\x7d".toList
def inCredentials : Text := inPath ++ "/:;=@[\\]^|".toList
def inQuery : Text := " \"#<>".toList
def inSpecialQuery : Text := inQuery ++ ['\'']

/-- The text with percent signs before two digits read back, where that gives ASCII. -/
def percentDecode : Text → Text
  | '%' :: a :: b :: rest =>
    match Text.hexDigitValue? a, Text.hexDigitValue? b with
    | some high, some low =>
      if high < 8 then Char.ofNat (16 * high + low) :: percentDecode rest
      else '%' :: percentDecode (a :: b :: rest)
    | _, _ => '%' :: percentDecode (a :: b :: rest)
  | c :: rest => c :: percentDecode rest
  | [] => []

end Transclusion.Url
