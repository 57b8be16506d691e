import HtmlMinify.Attribute
import HtmlMinify.Tag
import HtmlMinify.Text.Space

/-! # Nodes

What a node of a document holds (`Content`), and the same with its links to other nodes (`Node`).
Every kind carries all fields; elements use the name, all others the value.
-/

namespace HtmlMinify

/-- The kinds of node. -/
inductive NodeKind where
  | element
  | text
  | cdata
  | instruction
  | comment
  | document
  | doctype
deriving Repr, DecidableEq, Inhabited

namespace NodeKind

/-- The kind's name in reports. -/
def name : NodeKind → String
  | element => "element"
  | text => "text"
  | cdata => "cdata"
  | instruction => "processing-instruction"
  | comment => "comment"
  | document => "document"
  | doctype => "doctype"

end NodeKind

/-- What a node holds, its links aside. -/
structure Content where
  kind : NodeKind
  /-- The tag as written, for an element. -/
  name : String := ""
  /-- The text of a node that is no element. -/
  value : String := ""
  attributes : Attributes := {}
  /-- The start tag closes itself; only in foreign content. -/
  selfClosing : Bool := false
deriving Repr, DecidableEq, Inhabited

namespace Content

/-- The document node. -/
def document : Content :=
  { kind := .document, name := "#document" }

/-- An element. -/
def element (name : String) (attributes : Attributes) (selfClosing : Bool) : Content :=
  { kind := .element, name, attributes, selfClosing }

/-- A node that holds text of some kind. -/
def leaf (kind : NodeKind) (value : String) : Content :=
  { kind, value }

/-- The tag name of an element. -/
def tag? (c : Content) : Option String :=
  if c.kind = .element then some c.name else none

/-- An element with this tag, ASCII case aside. -/
def isTag (c : Content) (name : String) : Bool :=
  c.kind = .element && Text.sameIgnoringCase c.name name

/-- An element. -/
def isElement (c : Content) : Bool :=
  c.kind = .element

/-- A text. -/
def isText (c : Content) : Bool :=
  c.kind = .text

/-- A text of whitespace only. -/
def isBlankText (c : Content) : Bool :=
  c.isText && Text.isBlank c.value

/-- An element whose text counts as written. -/
def preservesText (c : Content) : Bool :=
  c.isElement && Tag.preservesText c.name

/-- An element that begins a block. -/
def isBlock (c : Content) : Bool :=
  c.isElement && Tag.isBlock c.name

/-- An element that may not have children. -/
def isVoid (c : Content) : Bool :=
  c.isElement && Tag.isVoid c.name

end Content

/-- Position of a node in its document. Ids are not cut to 32 bits: `Document.size_le_of_parse` says
which pages have none beyond those. -/
abbrev NodeId := Nat

/-- A node in a document: its content and its links. -/
structure Node extends Content where
  parent : Option NodeId := none
  children : List NodeId := []
deriving Repr, DecidableEq, Inhabited

end HtmlMinify
