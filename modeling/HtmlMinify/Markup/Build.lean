import HtmlMinify.Document.Edit
import HtmlMinify.Markup.Doctype
import HtmlMinify.Markup.Open
import HtmlMinify.Markup.Token

/-! # From markup to documents

A `Draft` is a document under construction, together with the elements that are still open. It takes
tokens one by one: nodes are added to the document where they come up in the markup, below the
innermost open element. Adding a node can fail as any change of a document can, and elements that
nest too deep are refused.
-/

namespace HtmlMinify

/-- A document under construction. -/
structure Draft where
  /-- The document so far. -/
  doc : Document := .new
  /-- The open elements with their tags, innermost first; the document node encloses them all. -/
  opened : List (NodeId × String) := []
  /-- The page renders in quirks mode, as far as known. -/
  quirks : Bool := true
  /-- Content has come, or a doctype: a later doctype no longer counts. -/
  decided : Bool := false
deriving Repr, DecidableEq, Inhabited

namespace Draft

/-- The tags of the open elements, innermost first. -/
def openTags (d : Draft) : List String :=
  d.opened.map (·.2)

/-- The node that takes what comes next: the innermost open element, or the document node. -/
def current (d : Draft) : NodeId :=
  match d.opened with
  | [] => 0
  | (id, _) :: _ => id

/-- Changes the document. -/
def edit {α : Type} (change : Edit α) : Draft → Except DocumentError (α × Draft)
  | ⟨doc, opened, quirks, decided⟩ =>
    match change.apply doc with
    | (.ok a, doc) => .ok (a, ⟨doc, opened, quirks, decided⟩)
    | (.error e, _) => .error e

/-- Adds a node where the draft stands. -/
def add (content : Content) (d : Draft) : Except DocumentError (NodeId × Draft) :=
  d.edit (Edit.addBelow d.current content)

/-- Ends open elements until those with the tags `left` are open. -/
def closeTo (left : List String) (d : Draft) : Draft :=
  { d with opened := d.opened.drop (d.opened.length - left.length) }

/-- Notes what a token says about quirks mode. -/
def observe (token : Token) (d : Draft) : Draft :=
  match token with
  | .comment _ | .cdata _ | .instruction _ => d
  | .text value => if Text.isBlank value then d else { d with decided := true }
  | .doctype value =>
    if d.decided then d else { d with quirks := Doctype.quirks value, decided := true }
  | .startTag _ | .endTag _ => { d with decided := true }

/-- Adds an element where its start tag stands: the draft, and the tag if its raw text follows. An
element that may have content stays open. -/
def start (maxDepth : Nat) (tag : StartTag) (d : Draft) :
    Except DocumentError (Draft × Option String) := do
  let foreign := Tag.isForeignRoot tag.name || Open.inForeign d.openTags
  let content := Content.element tag.name tag.attributes (foreign && tag.selfClosing)
  let (id, d) ← (d.closeTo (Open.afterStart tag.name d.quirks d.openTags)).add content
  if content.selfClosing || Tag.isVoid tag.name then
    return (d, none)
  else
    let d := { d with opened := (id, tag.name) :: d.opened }
    if maxDepth < d.opened.length then throw (.depthExceeded d.opened.length maxDepth)
    else return (d, if !foreign && Tag.isRawText tag.name then some tag.name else none)

/-- Takes an end tag. Outside foreign content that of `br` stands for its start tag, and that of `p`
leaves an empty paragraph if it ends none. -/
def finish (maxDepth : Nat) (name : String) (d : Draft) : Except DocumentError Draft :=
  let foreign := Open.inForeign d.openTags
  if Text.sameIgnoringCase name "br" && !foreign then
    (d.start maxDepth ⟨"br", .empty, false⟩).map (·.1)
  else
    let left := Open.afterEnd name d.openTags
    if left.length < d.openTags.length then .ok (d.closeTo left)
    else if Text.sameIgnoringCase name "p" && !foreign then
      (d.add (.element "p" .empty false)).map (·.2)
    else .ok d

/-- Takes a token: the draft after it, and the tag whose raw text follows, if any. -/
def step (maxDepth : Nat) (token : Token) (d : Draft) :
    Except DocumentError (Draft × Option String) :=
  let d := d.observe token
  let leaf (kind : NodeKind) (value : String) : Except DocumentError (Draft × Option String) :=
    (d.add (.leaf kind value)).map fun added => (added.2, none)
  match token with
  | .text value => (d.edit (Edit.addTextBelow d.current value)).map fun added => (added.2, none)
  | .comment value => leaf .comment value
  | .doctype value => leaf .doctype value
  | .cdata value => leaf .cdata value
  | .instruction value => leaf .instruction value
  | .endTag name => (d.finish maxDepth name).map (·, none)
  | .startTag tag => d.start maxDepth tag

/-- Takes all tokens of the input, the raw text of `raw` first, if asked for. -/
def run (maxDepth : Nat) (d : Draft) (raw : Option String) (input : List Char) :
    Except DocumentError Draft :=
  match _h : Token.next? raw input with
  | none => .ok d
  | some (token, rest) =>
    match d.step maxDepth token with
    | .error e => .error e
    | .ok (d, raw) => run maxDepth d raw rest
termination_by input.length
decreasing_by exact Token.length_next?_lt _h

end Draft

namespace Document

/-- The nesting depth that is allowed where none is asked for. -/
def defaultMaxDepth : Nat := 512

/-- The document of a page. -/
def parse (maxDepth : Nat) (markup : String) : Except DocumentError Document :=
  (Draft.run maxDepth {} none markup.toList).map (·.doc)

end Document

end HtmlMinify
