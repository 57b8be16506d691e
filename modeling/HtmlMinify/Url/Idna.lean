import HtmlMinify.Text.Ascii
import HtmlMinify.Unicode.Normalize
import HtmlMinify.Url.Idna.Label
import HtmlMinify.Url.Idna.Mapping
import HtmlMinify.Url.Punycode

/-! # Domain names in ASCII form

A domain name may be written in any script. Its ASCII form has each label with other characters
replaced by a mark and the label's Punycode; a label may also be given in that form already, and is
then read and checked as the text that it stands for.
-/

namespace HtmlMinify.Idna

open Text

/-- What a label in Punycode begins with. -/
def aceMark : List Char := "xn--".toList

/-- The longest text in Punycode that is read. -/
def maxEncodedLength : Nat := 2000

/-- The longest label that is written in Punycode. -/
def maxLabelLength : Nat := 1000

/-- Whether every character is an ASCII character. -/
def isAscii (cs : List Char) : Bool :=
  cs.all (·.toNat < 0x80)

/-- ASCII characters that no domain may hold. -/
def isForbidden (c : Char) : Bool :=
  c.toNat ≤ 0x20 || c.toNat == 0x7f || "%#/:<>?@[\\]^|".toList.contains c

/-- The text of a label in Punycode, without its mark. It has to be a text that could not have been
written plainly, in the form in which Punycode takes it; that it begins with the mark again does no
harm. -/
def decodeLabel? (encoded : List Char) : Option (List Char) := do
  if maxEncodedLength < encoded.length || !isAscii encoded then none
  else
    let label ← Punycode.decode? encoded
    if isAscii label || !label.all isKept || Unicode.normalize label != label then none
    else some label

/-- The text of a label. -/
def readLabel? (label : List Char) : Option (List Char) :=
  match aceMark.isPrefixOf? label with
  | some encoded => decodeLabel? encoded
  | none => some label

/-- The ASCII form of a label. -/
def writeLabel? (label : List Char) : Option (List Char) :=
  if isAscii label then some label
  else if maxLabelLength < label.length then none
  else some (aceMark ++ Punycode.encode label)

/-- The texts of the labels of a name. -/
def labels? (domain : List Char) : Option (List (List Char)) := do
  let mapped ← map? domain
  let labels ← (pieces '.' (Unicode.normalize mapped)).mapM readLabel?
  if labels.all isValidLabel &&
      (!labels.any (·.any runsRightToLeft) || labels.all directionFits) then
    some labels
  else none

/-- The ASCII form of a name, whichever characters it has. -/
def encode? (domain : List Char) : Option (List Char) := do
  let labels ← labels? domain
  let written ← labels.mapM writeLabel?
  return ['.'].intercalate written

/-- The ASCII form of a domain name; nothing if it is no domain name. Names in plain ASCII only lose
their capitals. -/
def toAscii? (domain : String) : Option String := do
  let lowered := (lower domain).toList
  let isPlain := isAscii lowered && !(pieces '.' lowered).any aceMark.isPrefixOf
  let written ← if isPlain then some lowered else encode? domain.toList
  if written.any isForbidden then none else some (String.ofList written)

end HtmlMinify.Idna
