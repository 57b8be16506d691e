import HtmlMinify.Document.Basic
import HtmlMinify.Forest
import HtmlMinify.Markup.Doctype
import HtmlMinify.Markup.Open
import HtmlMinify.Markup.Token

/-!
# Pages as trees

What a page says, as a forest: no ids, no links, and no failure but that of elements that nest too
deep. A `Builder` takes the tokens of a page as a draft of a document does, and holds the tree built
so far, cut along the open elements. `Document.ofForest` lays a forest out as a document.
-/

namespace HtmlMinify

/-! ## Documents from forests -/

namespace Forest

/-- Ids of the roots when the nodes are numbered from `start` in document order. -/
def rootIds {α : Type} (start : NodeId) : Forest α → List NodeId
  | nil => []
  | node _ children siblings => start :: siblings.rootIds (start + 1 + children.size)

/-- The nodes in document order, numbered from `start`, the roots linked to `parent`. -/
def layout (parent : Option NodeId) (start : NodeId) : Forest Content → List Node
  | nil => []
  | node content children siblings =>
    { toContent := content, parent, children := children.rootIds (start + 1) } ::
      (children.layout (some start) (start + 1) ++
        siblings.layout parent (start + 1 + children.size))

end Forest

namespace Document

/-- The document whose root is a document node over the forest, numbered in document order. -/
def ofForest (forest : Forest Content) : Document :=
  { nodes := (Forest.layout none 0 (.node .document forest .nil)).toArray
    root := some 0 }

end Document

/-! ## Trees under construction -/

/-- A node with all its children. -/
abbrev Tree := Content × Forest Content

/-- An element that is still open, and its children so far, last first. -/
structure Frame where
  content : Content
  done : List Tree := []
deriving Repr, DecidableEq, Inhabited

/-- A tree under construction. -/
structure Builder where
  /-- The open elements, innermost first. -/
  frames : List Frame := []
  /-- The finished trees at the top, last first. -/
  done : List Tree := []
  /-- The page renders in quirks mode, as far as known. -/
  quirks : Bool := true
  /-- Content has come, or a doctype: a later doctype no longer counts. -/
  decided : Bool := false
deriving Repr, DecidableEq, Inhabited

namespace Builder

/-- The tags of the open elements, innermost first. -/
def openTags (b : Builder) : List String :=
  b.frames.map (·.content.name)

/-- Changes the children of the innermost open element, or the trees at the top. -/
def onChildren (change : List Tree → List Tree) (b : Builder) : Builder :=
  match b.frames with
  | [] => { b with done := change b.done }
  | frame :: outer => { b with frames := { frame with done := change frame.done } :: outer }

/-- Adds a finished tree in the innermost open element. -/
def insert (tree : Tree) (b : Builder) : Builder :=
  b.onChildren (tree :: ·)

/-- Adds a text to children given last first: a text at the end grows. -/
def joinText (value : String) : List Tree → List Tree
  | [] => [(.leaf .text value, .nil)]
  | (last, below) :: earlier =>
    if last.isText then ({ last with value := last.value ++ value }, below) :: earlier
    else (.leaf .text value, .nil) :: (last, below) :: earlier

/-- Ends a number of open elements, from the innermost outward. -/
def close : Nat → Builder → Builder
  | 0, b => b
  | n + 1, b =>
    match b.frames with
    | [] => b
    | frame :: outer =>
      close n (insert (frame.content, .prependReversed frame.done .nil) { b with frames := outer })

/-- Ends open elements until those with the tags `left` are open. -/
def closeTo (left : List String) (b : Builder) : Builder :=
  b.close (b.frames.length - left.length)

/-- Notes what a token says about quirks mode. -/
def observe (token : Token) (b : Builder) : Builder :=
  match token with
  | .comment _ | .cdata _ | .instruction _ => b
  | .text value => if Text.isBlank value then b else { b with decided := true }
  | .doctype value =>
    if b.decided then b else { b with quirks := Doctype.quirks value, decided := true }
  | .startTag _ | .endTag _ => { b with decided := true }

/-- Adds an element where its start tag stands: the builder, and the tag if its raw text follows.
An element that may have content stays open. -/
def start (maxDepth : Nat) (tag : StartTag) (b : Builder) :
    Except DocumentError (Builder × Option String) :=
  let foreign := Tag.isForeignRoot tag.name || Open.inForeign b.openTags
  let b := b.closeTo (Open.afterStart tag.name b.quirks b.openTags)
  let content := Content.element tag.name tag.attributes (foreign && tag.selfClosing)
  if content.selfClosing || Tag.isVoid tag.name then
    .ok (b.insert (content, .nil), none)
  else
    let b := { b with frames := { content } :: b.frames }
    if maxDepth < b.frames.length then .error (.depthExceeded b.frames.length maxDepth)
    else .ok (b, if !foreign && Tag.isRawText tag.name then some tag.name else none)

/-- Takes an end tag. Outside foreign content that of `br` stands for its start tag, and that of `p`
leaves an empty paragraph if it ends none. -/
def finish (maxDepth : Nat) (name : String) (b : Builder) : Except DocumentError Builder :=
  let foreign := Open.inForeign b.openTags
  if Text.sameIgnoringCase name "br" && !foreign then
    (b.start maxDepth ⟨"br", .empty, false⟩).map (·.1)
  else
    let left := Open.afterEnd name b.openTags
    if left.length < b.openTags.length then .ok (b.closeTo left)
    else if Text.sameIgnoringCase name "p" && !foreign then
      .ok (b.insert (.element "p" .empty false, .nil))
    else .ok b

/-- Takes a token: the builder after it, and the tag whose raw text follows, if any. -/
def step (maxDepth : Nat) (token : Token) (b : Builder) :
    Except DocumentError (Builder × Option String) :=
  let b := b.observe token
  match token with
  | .text value => .ok (b.onChildren (joinText value), none)
  | .comment value => .ok (b.insert (.leaf .comment value, .nil), none)
  | .doctype value => .ok (b.insert (.leaf .doctype value, .nil), none)
  | .cdata value => .ok (b.insert (.leaf .cdata value, .nil), none)
  | .instruction value => .ok (b.insert (.leaf .instruction value, .nil), none)
  | .endTag name => (b.finish maxDepth name).map (·, none)
  | .startTag tag => b.start maxDepth tag

/-- Takes all tokens of the input, the raw text of `raw` first, if asked for. -/
def run (maxDepth : Nat) (b : Builder) (raw : Option String) (input : List Char) :
    Except DocumentError Builder :=
  match _h : Token.next? raw input with
  | none => .ok b
  | some (token, rest) =>
    match b.step maxDepth token with
    | .error e => .error e
    | .ok (b, raw) => run maxDepth b raw rest
termination_by input.length
decreasing_by exact Token.length_next?_lt _h

/-- The finished trees, with all open elements ended. -/
def forest (b : Builder) : Forest Content :=
  .prependReversed (b.close b.frames.length).done .nil

end Builder

/-- The trees of a page. -/
def Forest.parse (maxDepth : Nat) (markup : String) : Except DocumentError (Forest Content) :=
  (Builder.run maxDepth {} none markup.toList).map (·.forest)

end HtmlMinify
