/-! # HTML whitespace

Space, tab, line feed, form feed and carriage return are the whitespace of markup; a no-break space
is content. `collapse` writes every run of whitespace as one space, `trimStart` and `trimEnd` drop
it at an end, `words` gives the runs between it.
-/

namespace HtmlMinify.Text

/-- The five whitespace characters of markup. -/
def isSpace (c : Char) : Bool :=
  c == ' ' || c == '\t' || c == '\n' || c == '\x0c' || c == '\r'

/-- Text of whitespace only; the empty text counts. -/
def isBlank (s : String) : Bool :=
  s.toList.all isSpace

/-- Collapses whitespace runs, given whether the character before was whitespace. -/
def collapseFrom (inRun : Bool) : List Char → List Char
  | [] => []
  | c :: cs =>
    if isSpace c then
      if inRun then collapseFrom true cs else ' ' :: collapseFrom true cs
    else c :: collapseFrom false cs

/-- The text with each run of whitespace written as one space. -/
def collapse (s : String) : String :=
  String.ofList (collapseFrom false s.toList)

/-- Characters from the first that is no whitespace. -/
def trimStartChars (cs : List Char) : List Char :=
  cs.dropWhile isSpace

/-- Characters up to the last that is no whitespace. -/
def trimEndChars (cs : List Char) : List Char :=
  (cs.reverse.dropWhile isSpace).reverse

/-- The text without leading whitespace. -/
def trimStart (s : String) : String :=
  String.ofList (trimStartChars s.toList)

/-- The text without trailing whitespace. -/
def trimEnd (s : String) : String :=
  String.ofList (trimEndChars s.toList)

/-- The text without whitespace at either end. -/
def trim (s : String) : String :=
  trimEnd (trimStart s)

/-- Puts a character in front of the first word. -/
def extendWord (c : Char) : List (List Char) → List (List Char)
  | [] => [[c]]
  | w :: ws => (c :: w) :: ws

/-- The maximal runs of characters that are no whitespace, in order. -/
def wordsOf : List Char → List (List Char)
  | [] => []
  | c :: cs =>
    if isSpace c then wordsOf cs
    else
      match cs with
      | [] => [[c]]
      | d :: _ => if isSpace d then [c] :: wordsOf cs else extendWord c (wordsOf cs)

/-- The words of a text. -/
def words (s : String) : List String :=
  (wordsOf s.toList).map String.ofList

end HtmlMinify.Text
