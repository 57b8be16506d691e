import HtmlMinify.Tag

/-! # Open elements

The tags of the elements that are open at some point of the markup, innermost first. A start tag can
imply the end of some of them; an end tag ends its element and all inside it, or is ignored.

Both rules are searches outward through the open elements: for a target, up to a stop. Reading and
writing use the same rules, so that an end tag is left out only where reading puts it back.
-/

namespace HtmlMinify.Open

open Text Tag

/-! ## Tables -/

/-- Stops of the usual search. -/
def defaultScope : List String :=
  ["applet", "caption", "html", "marquee", "object", "table", "td", "template", "th"]

/-- Stops of the search for a paragraph. -/
def buttonScope : List String :=
  ["applet", "button", "caption", "html", "marquee", "object", "table", "td", "template",
    "th"]

/-- Stops of the search for a list item by its end tag. -/
def listItemScope : List String :=
  ["applet", "caption", "html", "marquee", "object", "ol", "table", "td", "template", "th",
    "ul"]

/-- Stops of the search for a part of a table by its end tag. -/
def tableScope : List String :=
  ["html", "table", "template"]

/-- Elements that structure the page. -/
def special : List String :=
  ["address", "applet", "area", "article", "aside", "base", "blockquote", "body", "br",
    "button", "caption", "center", "col", "colgroup", "dd", "details", "dir", "div", "dl",
    "dt", "embed", "fieldset", "figcaption", "figure", "footer", "form", "frame", "frameset",
    "h1", "h2", "h3", "h4", "h5", "h6", "head", "header", "hgroup", "hr", "html", "iframe",
    "img", "input", "li", "link", "listing", "main", "marquee", "menu", "meta", "nav",
    "noembed", "noframes", "noscript", "object", "ol", "p", "param", "plaintext", "pre",
    "script", "search", "section", "select", "source", "style", "summary", "table", "tbody",
    "td", "template", "textarea", "tfoot", "th", "thead", "title", "tr", "track", "ul", "wbr",
    "xmp"]

/-- Special elements that a search for an item passes through. -/
def itemTransparent : List String :=
  ["address", "div", "p"]

/-- End tags that end everything inside their element, if it is in scope. -/
def scopedEndTags : List String :=
  ["address", "applet", "article", "aside", "blockquote", "body", "button", "center", "dd",
    "details", "dialog", "dir", "div", "dl", "dt", "fieldset", "figcaption", "figure",
    "footer", "form", "head", "header", "hgroup", "html", "listing", "main", "marquee",
    "menu", "nav", "object", "ol", "pre", "search", "section", "summary", "ul"]

/-- End tags of tables and their parts. -/
def tableEndTags : List String :=
  ["caption", "table", "tbody", "td", "tfoot", "th", "thead", "tr"]

/-- Elements that only format text. -/
def formatting : List String :=
  ["a", "b", "big", "code", "em", "font", "i", "nobr", "s", "small", "strike", "strong", "tt",
    "u"]

/-- Headings; the end tag of one ends any. -/
def headings : List String :=
  ["h1", "h2", "h3", "h4", "h5", "h6"]

/-! ## Searches -/

/-- Ends everything up to the nearest target, outward; nothing if a stop comes first. -/
def closeTo? (target stop : String → Bool) : List String → Option (List String)
  | [] => none
  | tag :: outer =>
    if target tag then some outer else if stop tag then none else closeTo? target stop outer

/-- What stays open when everything up to the nearest target ends; all of it if a stop comes
first. -/
def close (target stop : String → Bool) (tags : List String) : List String :=
  (closeTo? target stop tags).getD tags

/-- Some open element begins foreign content. -/
def inForeign (tags : List String) : Bool :=
  tags.any isForeignRoot

/-! ## Start tags -/

/-- One implied end: what it looks for, and where the search stops. -/
structure ImpliedEnd where
  target : String → Bool
  stop : String → Bool

/-- A search for an item of a list, which stops at most special elements. -/
def stopsItem (tag : String) : Bool :=
  inTable special tag && !inTable itemTransparent tag

/-- The end of an open paragraph. -/
def endOfParagraph : ImpliedEnd :=
  ⟨inTable ["p"], inTable buttonScope⟩

/-- An end of the innermost element only. -/
def endOfInnermost (name : String) : ImpliedEnd :=
  ⟨inTable [name], fun _ => true⟩

/-- The ends that a start tag implies by its own kind, by lower-case name. -/
def ownImpliedEnds : String → List ImpliedEnd
  | "li" => [⟨inTable ["li"], stopsItem⟩]
  | "dt" | "dd" => [⟨inTable ["dd", "dt"], stopsItem⟩]
  | "option" => [endOfInnermost "option"]
  | "optgroup" => [endOfInnermost "option", endOfInnermost "optgroup"]
  | "td" | "th" => [⟨inTable ["td", "th"], inTable ["html", "table", "template", "tr"]⟩]
  | "tr" =>
    [⟨inTable ["tr"], inTable ["html", "table", "tbody", "template", "tfoot", "thead"]⟩]
  | "tbody" | "tfoot" | "thead" =>
    [⟨inTable ["tbody", "tfoot", "thead"], inTable ["html", "table", "template"]⟩]
  | "rt" | "rp" => [⟨inTable ["rp", "rt"], inTable ["html", "ruby"]⟩]
  | "body" => [⟨inTable ["head"], inTable ["html"]⟩]
  | _ => []

/-- A start tag ends an open paragraph. In quirks mode a table may stand in one. -/
def closesParagraph (name : String) (quirks : Bool) : Bool :=
  inTable paragraphClosers name && !(quirks && sameIgnoringCase name "table")

/-- The ends that a start tag implies, in order. -/
def impliedEnds (name : String) (quirks : Bool) : List ImpliedEnd :=
  ownImpliedEnds (lower name) ++ if closesParagraph name quirks then [endOfParagraph] else []

/-- What stays open when the start tag `name` comes. In foreign content nothing is implied. -/
def afterStart (name : String) (quirks : Bool) (tags : List String) : List String :=
  if isForeignRoot name || inForeign tags then tags
  else (impliedEnds name quirks).foldl (fun left rule => close rule.target rule.stop left) tags

/-! ## End tags -/

/-- The nearest element of this name within the innermost foreign content. -/
def closeForeign? (name : String) (tags : List String) : Option (List String) :=
  if inForeign tags then closeTo? (sameIgnoringCase · name) isForeignRoot tags else none

/-- What stays open after an end tag of HTML content, by lower-case name. -/
def afterHtmlEnd (name : String) (tags : List String) : List String :=
  match name with
  | "p" => close (inTable ["p"]) (inTable buttonScope) tags
  | "li" => close (inTable ["li"]) (inTable listItemScope) tags
  | "option" => close (inTable ["option"]) (fun _ => true) tags
  | "optgroup" =>
    match tags with
    | inner :: outer :: rest =>
      if sameIgnoringCase inner "option" && sameIgnoringCase outer "optgroup" then rest
      else if sameIgnoringCase inner "optgroup" then outer :: rest
      else tags
    | [inner] => if sameIgnoringCase inner "optgroup" then [] else tags
    | [] => []
  | "select" => close (inTable ["select"]) (!inTable ["optgroup", "option"] ·) tags
  | _ =>
    if headings.contains name then close (inTable headings) (inTable defaultScope) tags
    else if scopedEndTags.contains name || formatting.contains name then
      close (inTable [name]) (inTable defaultScope) tags
    else if tableEndTags.contains name then close (inTable [name]) (inTable tableScope) tags
    else close (inTable [name]) (inTable special) tags

/-- What stays open after the end tag `name`; all of it if the tag is ignored. -/
def afterEnd (name : String) (tags : List String) : List String :=
  if isVoid name then tags
  else
    match closeForeign? name tags with
    | some left => left
    | none => afterHtmlEnd (lower name) tags

end HtmlMinify.Open
