import HtmlMinify.Document.Edit
import HtmlMinify.Text.Blank

/-! # Removing comments

All comments go, but for two kinds: those that old browsers read as conditions, and those that keep
two texts apart which together would read as a character reference, such as `&am` and `p;`.
-/

namespace HtmlMinify.Comments

open Text

/-- How comments begin that old browsers read. -/
def conditionalStarts : List String :=
  ["[if", "<![endif]", "[endif]"]

/-- A comment that old browsers read. -/
def isConditional (value : String) : Bool :=
  let body := stripStartChars value.toList
  conditionalStarts.any fun start => start.toList.isPrefixOf body

/-- A comment that is only a comment. -/
def isRemovable (c : Content) : Bool :=
  c.kind = .comment && !isConditional c.value

/-- Characters of a character reference after `&`. -/
def inReference (c : Char) : Bool :=
  c.isAlphanum || c == '#'

/-- The text ends in `&` and such characters: more of them would go on with the reference. -/
def endsInOpenReference (value : String) : Bool :=
  (value.toList.reverse.dropWhile inReference).head? == some '&'

/-- The text begins with what can go on with a reference. -/
def continuesReference (value : String) : Bool :=
  value.toList.head?.any fun c => inReference c || c == ';'

/-- The first node that stays is a text that goes on with a reference. -/
def nextContinues : List Content → Bool
  | [] => false
  | c :: rest =>
    if isRemovable c then nextContinues rest else c.isText && continuesReference c.value

/-- The siblings that go, given whether the text before them ends in an open reference. -/
def removable (openReference : Bool) : List (NodeId × Node) → List NodeId
  | [] => []
  | (id, child) :: rest =>
    if child.isText then removable (endsInOpenReference child.value) rest
    else if !isRemovable child.toContent then removable false rest
    else if openReference && nextContinues (rest.map (·.2.toContent)) then removable false rest
    else id :: removable openReference rest

/-- All comments of a document that go, in document order. -/
def removableIn (doc : Document) : Except DocumentError (List NodeId) := do
  let perParent ← (← doc.descendants).mapM fun parent => do
    return removable false (← doc.children parent)
  return perParent.flatten

/-- Removes comments: how many. -/
def remove : Edit Nat := do
  Edit.detach (← Edit.read removableIn)

end HtmlMinify.Comments
