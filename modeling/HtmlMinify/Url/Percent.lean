import HtmlMinify.Text.Scan

/-! # Percent-encoded text

`%` and two hexadecimal digits stand for a byte of the text's UTF-8 form; any other `%` stands for
itself.
-/

namespace HtmlMinify.Percent

open Text

/-- The byte that two hexadecimal digits write. -/
def byte? (high low : UInt8) : Option UInt8 := do
  let h ← hexValue? (Char.ofUInt8 high)
  let l ← hexValue? (Char.ofUInt8 low)
  return UInt8.ofNat (16 * h + l)

/-- Replaces each `%` and two digits by the byte they stand for. -/
def decodeBytes : List UInt8 → List UInt8
  | [] => []
  | [b] => [b]
  | [b, c] => [b, c]
  | b :: high :: low :: rest =>
    if b == 0x25 then
      match byte? high low with
      | some byte => byte :: decodeBytes rest
      | none => b :: decodeBytes (high :: low :: rest)
    else b :: decodeBytes (high :: low :: rest)

/-- The text that percent-encoded text stands for; nothing if its bytes are no UTF-8. -/
def decode? (s : String) : Option String :=
  String.fromUTF8? (decodeBytes s.toUTF8.toList).toByteArray

end HtmlMinify.Percent
