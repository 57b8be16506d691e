/-! # Unicode white space

The characters with the Unicode property White_Space. It is wider than the whitespace of markup:
no-break and typographic spaces belong to it. Doctypes, comments and configured domain names are
trimmed by it.
-/

namespace HtmlMinify.Text

/-- The Unicode property White_Space. -/
def isWhiteSpace (c : Char) : Bool :=
  let n := c.toNat
  (0x9 ≤ n && n ≤ 0xd) || n == 0x20 || n == 0x85 || n == 0xa0 || n == 0x1680 ||
    (0x2000 ≤ n && n ≤ 0x200a) || n == 0x2028 || n == 0x2029 || n == 0x202f || n == 0x205f ||
    n == 0x3000

/-- Characters from the first that is no white space. -/
def stripStartChars (cs : List Char) : List Char :=
  cs.dropWhile isWhiteSpace

/-- The text without white space at either end. -/
def strip (s : String) : String :=
  String.ofList ((stripStartChars s.toList).reverse.dropWhile isWhiteSpace).reverse

end HtmlMinify.Text
