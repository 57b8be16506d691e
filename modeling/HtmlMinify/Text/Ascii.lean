/-! # ASCII letter case

Names in markup (tags, attribute keys, keywords, host names) are compared without regard to the
case of ASCII letters. Every such comparison goes through `lower`, so two names that agree after
`lower` cannot be told apart by it.
-/

namespace HtmlMinify.Text

/-- The text with its ASCII capital letters made small; every other character stays. -/
def lower (s : String) : String :=
  String.ofList (s.toList.map Char.toLower)

/-- Equality up to the case of ASCII letters. -/
def sameIgnoringCase (a b : String) : Bool :=
  lower a == lower b

/-- Membership, up to ASCII case, in a table of lower-case names. -/
def inTable (table : List String) (name : String) : Bool :=
  table.contains (lower name)

/-- What follows `word` at the start of a text, the case of ASCII letters aside. -/
def afterIgnoringCase? : List Char → List Char → Option (List Char)
  | [], text => some text
  | _ :: _, [] => none
  | w :: word, c :: text =>
    if w.toLower == c.toLower then afterIgnoringCase? word text else none

end HtmlMinify.Text
