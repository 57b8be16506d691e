import HtmlMinify.Text.Ascii

/-! # Tag and attribute vocabulary

Tables of the element and attribute names that markup treats specially. All lookups ignore ASCII
case.
-/

namespace HtmlMinify.Tag

open Text

/-- Elements without content and end tag. -/
def voidElements : List String :=
  ["area", "base", "br", "col", "embed", "hr", "img", "input", "keygen", "link", "meta",
    "param", "source", "track", "wbr"]

/-- Elements whose content is raw text up to their own end tag. -/
def rawTextElements : List String :=
  ["script", "style", "xmp", "iframe", "noembed", "noframes", "plaintext", "textarea", "title"]

/-- Elements whose whitespace shows as written. -/
def spacePreservingElements : List String :=
  ["pre", "textarea", "script", "style", "xmp", "plaintext", "listing"]

/-- Elements that begin a block; whitespace that touches one is never shown. -/
def blockElements : List String :=
  ["address", "article", "aside", "blockquote", "body", "caption", "colgroup", "dd",
    "details", "dialog", "div", "dl", "dt", "fieldset", "figcaption", "figure", "footer",
    "form", "h1", "h2", "h3", "h4", "h5", "h6", "head", "header", "hgroup", "hr", "html",
    "legend", "li", "main", "menu", "nav", "ol", "optgroup", "option", "p", "pre",
    "search", "section", "summary", "table", "tbody", "td", "tfoot", "th", "thead", "tr",
    "ul"]

/-- Start tags that end an open paragraph. -/
def paragraphClosers : List String :=
  ["address", "article", "aside", "blockquote", "dd", "details", "dialog", "div", "dl",
    "dt", "fieldset", "figcaption", "figure", "footer", "form", "h1", "h2", "h3", "h4", "h5",
    "h6", "header", "hgroup", "hr", "li", "main", "menu", "nav", "ol", "p", "pre", "search",
    "section", "table", "ul"]

/-- Attributes whose value is an address. -/
def urlAttributes : List String :=
  ["action", "background", "cite", "codebase", "data", "formaction", "href", "icon",
    "longdesc", "manifest", "poster", "src"]

/-- Elements that begin foreign content, where a start tag can close itself. -/
def foreignRoots : List String :=
  ["svg", "math"]

/-- No content and no end tag. -/
def isVoid (name : String) : Bool :=
  inTable voidElements name

/-- Content is raw text. -/
def isRawText (name : String) : Bool :=
  inTable rawTextElements name

/-- Whitespace shows as written. -/
def keepsSpace (name : String) : Bool :=
  inTable spacePreservingElements name

/-- Begins a block. -/
def isBlock (name : String) : Bool :=
  inTable blockElements name

/-- Holds an address as its value. -/
def isUrlAttribute (name : String) : Bool :=
  inTable urlAttributes name

/-- Begins foreign content. -/
def isForeignRoot (name : String) : Bool :=
  inTable foreignRoots name

/-- Text inside counts as written: shown verbatim, or raw. -/
def preservesText (name : String) : Bool :=
  keepsSpace name || isRawText name

end HtmlMinify.Tag
