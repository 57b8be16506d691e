import HtmlMinify.Unicode.BidiClass
import HtmlMinify.Unicode.CombiningClass
import HtmlMinify.Unicode.JoiningType
import HtmlMinify.Unicode.Mark

/-! # Labels of domain names

The parts of a domain name between its dots are labels. A label does not begin with a mark, an
invisible joiner stands only where it shows, and if a name has letters that run from right to left,
each of its labels keeps to the rule that fixes the order in which its characters are shown.
-/

namespace HtmlMinify.Idna

open Unicode

/-! ## Joiners -/

/-- The zero-width character that keeps two letters from joining. -/
def nonJoiner : Char := '\u200c'

/-- The zero-width character that makes two letters join. -/
def joiner : Char := '\u200d'

/-- Whether the first character that takes part in joining meets the condition. -/
def meetsJoining (joins : Char → Bool) (cs : List Char) : Bool :=
  (cs.dropWhile fun c => !joins c && isTransparent c).head?.any joins

/-- Whether the character may stand between the text `before`, the last character of it first, and
the text `after`. A joiner of either kind may follow a sign that suppresses a vowel, and a
non-joiner may stand between two letters that would join. -/
def fitsJoining (before : List Char) (c : Char) (after : List Char) : Bool :=
  let afterVirama := before.head?.any (combiningClass · == virama)
  if c == nonJoiner then
    afterVirama || meetsJoining joinsNext before && meetsJoining joinsPrevious after
  else if c == joiner then afterVirama
  else true

/-- Whether each joiner of a text is where it may be; `before` is what precedes the text, the last
character of it first. -/
def joinersFit (before : List Char) : List Char → Bool
  | [] => true
  | c :: cs => fitsJoining before c cs && joinersFit (c :: before) cs

/-! ## Direction -/

/-- Whether the character shows that a name has text that runs from right to left. -/
def runsRightToLeft (c : Char) : Bool :=
  match BidiClass.ofChar c with
  | .rightToLeft | .arabicLetter | .arabicNumber => true
  | _ => false

/-- Classes that a label may hold in either direction. -/
def isShared : BidiClass → Bool
  | .europeanNumber | .europeanSeparator | .commonSeparator | .europeanTerminator | .neutral
  | .boundaryNeutral | .nonspacingMark => true
  | _ => false

/-- Classes at the end of a label that runs from right to left. -/
def endsRightToLeft : BidiClass → Bool
  | .rightToLeft | .arabicLetter | .europeanNumber | .arabicNumber => true
  | _ => false

/-- Classes at the end of a label that runs from left to right. -/
def endsLeftToRight : BidiClass → Bool
  | .leftToRight | .europeanNumber => true
  | _ => false

/-- The last class of a label, marks apart. -/
def lastClass? (classes : List BidiClass) : Option BidiClass :=
  (classes.reverse.dropWhile (· == .nonspacingMark)).head?

/-- Whether a label keeps to one direction, which its first character chooses. -/
def directionFits (label : List Char) : Bool :=
  let classes := label.map BidiClass.ofChar
  match classes with
  | [] => true
  | .leftToRight :: _ =>
    classes.all (fun d => d == .leftToRight || isShared d) &&
      (lastClass? classes).any endsLeftToRight
  | .rightToLeft :: _ | .arabicLetter :: _ =>
    classes.all (fun d => endsRightToLeft d || isShared d) &&
      (lastClass? classes).any endsRightToLeft &&
      !(classes.contains .europeanNumber && classes.contains .arabicNumber)
  | _ => false

/-! ## Valid labels -/

/-- Whether a label may stand in a name, its direction apart. -/
def isValidLabel (label : List Char) : Bool :=
  !label.head?.any isMark && joinersFit [] label

end HtmlMinify.Idna
