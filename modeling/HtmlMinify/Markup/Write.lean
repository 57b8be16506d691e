import HtmlMinify.Document.Walk
import HtmlMinify.Markup.Doctype
import HtmlMinify.Markup.Open

/-! # From documents to markup

Void elements get no end tag, raw text is written as it is, and in other text only an angle
bracket that would begin markup is escaped. Attribute values get quotes, if asked only where they
need them. If asked, an end tag is left out where the rules of the page's elements allow it
and what comes next makes reading put it back: the start tag of the next element, the end tag of an
element around it, or the end of the page.
-/

namespace HtmlMinify

open Text

/-- How markup is written. -/
structure WriteOptions where
  /-- No quotes around values that do without. -/
  omitQuotes : Bool := false
  /-- No end tags that reading puts back. -/
  omitEndTags : Bool := false
deriving Repr, DecidableEq, Inhabited

/-! ## Attributes and text -/

/-- A character that a value without quotes may not hold. -/
def needsQuotes (c : Char) : Bool :=
  isSpace c || c == '\x22' || c == '\x27' || c == '=' || c == '<' || c == '>' || c == '\x60'

/-- The value can be written without quotes. -/
def canUnquote (value : String) : Bool :=
  !value.isEmpty && !value.toList.any needsQuotes

/-- A character of a value in double quotes. -/
def escapeQuote (c : Char) : List Char :=
  if c == '\x22' then "&quot;".toList else [c]

/-- A value in quotes: single ones around a value that holds only double ones. -/
def quoteValue (value : String) : String :=
  if value.toList.contains '\x22' && !value.toList.contains '\x27' then "'" ++ value ++ "'"
  else "\"" ++ String.ofList (value.toList.flatMap escapeQuote) ++ "\""

/-- The value is written, and without quotes. -/
def writesBare (options : WriteOptions) (value : String) : Bool :=
  options.omitQuotes && canUnquote value

/-- What follows the name of an attribute. -/
def writeValue (options : WriteOptions) : Option String → String
  | none => ""
  | some value =>
    if options.omitQuotes && value.isEmpty then ""
    else if writesBare options value then "=" ++ value
    else "=" ++ quoteValue value

/-- An attribute after a blank. -/
def Attribute.write (options : WriteOptions) (a : Attribute) : String :=
  " " ++ a.name ++ writeValue options a.value

/-- All attributes. -/
def Attributes.write (options : WriteOptions) (as : Attributes) : String :=
  (as.toList.map (·.write options)).foldl (· ++ ·) ""

/-- The last attribute has a value that is written without quotes. -/
def Attributes.endsBare (options : WriteOptions) (as : Attributes) : Bool :=
  (as.toList.getLast?.bind (·.value)).any (writesBare options)

/-- A character after `<` that makes it begin markup. -/
def beginsMarkup (c : Char) : Bool :=
  c.isAlpha || c == '/' || c == '!' || c == '?'

/-- Text with every `<` escaped that would begin markup. -/
def escapeChars : List Char → List Char
  | [] => []
  | c :: cs =>
    if c == '<' && (cs.head?.any beginsMarkup) then "&lt;".toList ++ escapeChars cs
    else c :: escapeChars cs

/-- Text with every `<` escaped that would begin markup. -/
def escapeText (s : String) : String :=
  String.ofList (escapeChars s.toList)

/-! ## Outlines -/

/-- What is written of a node: its content, and the tag of the element that its parent link
names. -/
structure Placed extends Content where
  owner : Option String
deriving Repr, DecidableEq, Inhabited

namespace Document

/-- The tag of the element that a node's parent link names. -/
def ownerTag (doc : Document) (node : Node) : Option String :=
  (node.parent.bind (doc.nodes[·]?)).bind (·.tag?)

/-- The children of a node are written: it is a document, or an element that is not void. -/
def writesChildren (node : Node) : Bool :=
  match node.kind with
  | .document => true
  | .element => !Tag.isVoid node.name
  | _ => false

/-- A node as it is written. A start tag closes itself only in front of no children. -/
def placed (doc : Document) (node : Node) : Placed :=
  { node with
    selfClosing := node.selfClosing && node.children.isEmpty
    owner := doc.ownerTag node }

/-- The outlines of siblings, with `below` for the children of each. A node's next sibling is looked
up before its children. -/
def outlineLevel (doc : Document) (below : List NodeId → Except DocumentError (Forest Placed)) :
    List NodeId → Except DocumentError (Forest Placed)
  | [] => .ok .nil
  | id :: ids => do
    let node ← doc.node id
    let _ ← ids.head?.mapM doc.node
    let children ← if writesChildren node then below node.children else .ok .nil
    let siblings ← outlineLevel doc below ids
    return .node (doc.placed node) children siblings

/-- The outlines of nodes, a number of levels deep. -/
def outlines (doc : Document) : Nat → List NodeId → Except DocumentError (Forest Placed)
  | 0, _ => .ok .nil
  | levels + 1, ids => outlineLevel doc (outlines doc levels) ids

/-- What is written of a document; nothing without a root. -/
def outline (doc : Document) : Except DocumentError (Forest Placed) :=
  doc.outlines doc.maxLevels doc.root.toList

end Document

/-! ## Omitted end tags -/

/-- What ends an element whose end tag is left out. The tags come with the number of elements that
must then still be open. -/
inductive Closer where
  | endOfPage
  | endTag (tag : String) (depth : Nat)
  | startTag (tag : String) (depth : Nat)
deriving Repr, DecidableEq, Inhabited

namespace Closer

/-- Reading makes the closer end exactly the elements it has to, `tags` being open. An end tag of a
formatting element is not relied on. -/
def reopens (closer : Closer) (quirks : Bool) (tags : List String) : Bool :=
  match closer with
  | endOfPage => true
  | endTag tag depth =>
    !inTable Open.formatting tag && (Open.afterEnd tag tags).length == depth
  | startTag tag depth => (Open.afterStart tag quirks tags).length == depth

end Closer

/-- Elements around a paragraph that do not imply its end. -/
def paragraphEndRequiredIn : List String :=
  ["a", "audio", "del", "ins", "map", "noscript", "video"]

namespace Placed

/-- The rules of the page's elements allow to leave out the end tag of `element` before `next`. -/
def mayOmitEnd (element : Placed) (next : Option Placed) : Bool :=
  let last := next.isNone
  let before (tags : List String) : Bool := next.any fun n => n.isElement && inTable tags n.name
  match lower element.name with
  | "p" =>
    before Tag.paragraphClosers || (last && !element.owner.any (inTable paragraphEndRequiredIn))
  | "li" => before ["li"] || last
  | "dt" => before ["dt", "dd"]
  | "dd" => before ["dt", "dd"] || last
  | "rt" | "rp" => before ["rt", "rp"] || last
  | "option" => before ["option", "optgroup"] || last
  | "optgroup" => before ["optgroup"] || last
  | "tr" => before ["tr"] || last
  | "td" | "th" => before ["td", "th"] || last
  | "thead" => before ["tbody", "tfoot"]
  | "tbody" => before ["tbody", "tfoot"] || last
  | "tfoot" => last
  | "head" => before ["body"]
  | "body" | "html" => last
  | _ => false

/-- What stands in for the end tag of `element`, if it can be left out: `closer` is what ends the
element around it, and `outer` are the tags open around it. -/
def closer? (quirks : Bool) (outer : List String) (closer : Closer) (element : Placed)
    (next : Option Placed) : Option Closer :=
  if element.mayOmitEnd next then
    let trigger? :=
      match next with
      | none => some closer
      | some n => if n.isElement then some (.startTag n.name outer.length) else none
    trigger?.filter (·.reopens quirks (element.name :: outer))
  else none

end Placed

/-! ## Writing -/

/-- A start tag. -/
def Content.writeStart (options : WriteOptions) (c : Content) : String :=
  "<" ++ c.name ++ c.attributes.write options ++
    if c.selfClosing then (if c.attributes.endsBare options then " />" else "/>") else ">"

/-- An end tag. -/
def writeEnd (name : String) : String :=
  "</" ++ name ++ ">"

namespace Forest

/-- Writes trees in order, in or outside foreign content. `outer` are the tags open around them, and
`closer` is what ends the last of them. -/
def write (options : WriteOptions) (quirks : Bool) (outer : List String) (foreign : Bool)
    (closer : Closer) : Forest Placed → String
  | nil => ""
  | node label children siblings =>
    let here :=
      match label.kind with
      | .document => children.write options quirks outer foreign closer
      | .doctype => "<!" ++ label.value ++ ">"
      | .comment => "<!--" ++ label.value ++ "-->"
      | .cdata => "<![CDATA[" ++ label.value ++ "]]>"
      | .instruction => "<?" ++ label.value ++ ">"
      | .text =>
        if !foreign && label.owner.any Tag.isRawText then label.value
        else escapeText label.value
      | .element =>
        let foreign := foreign || Tag.isForeignRoot label.name
        let start := label.writeStart options
        if label.selfClosing || Tag.isVoid label.name then start
        else
          let omitted :=
            if options.omitEndTags && !foreign then label.closer? quirks outer closer siblings.head?
            else none
          start ++
            children.write options quirks (label.name :: outer) foreign
              (omitted.getD (.endTag label.name outer.length)) ++
            if omitted.isSome then "" else writeEnd label.name
    here ++ siblings.write options quirks outer foreign closer

/-- The page's quirks mode, by the nodes below its root. -/
def quirks : Forest Placed → Bool
  | nil => true
  | node _ children _ => Doctype.pageQuirks (children.roots.map (·.toContent))

end Forest

namespace Document

/-- The markup of a document. -/
def serialize (doc : Document) (options : WriteOptions) : Except DocumentError String := do
  let page ← doc.outline
  return page.write options page.quirks [] false .endOfPage

end Document

end HtmlMinify
