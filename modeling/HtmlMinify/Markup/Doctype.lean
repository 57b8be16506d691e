import HtmlMinify.Node
import HtmlMinify.Text.Blank
import HtmlMinify.Text.Scan

/-! # Doctypes and quirks mode

A page renders in quirks mode if it has no doctype before its content, or an old one. In quirks mode
a table may stand inside a paragraph.
-/

namespace HtmlMinify.Doctype

open Text

/-- Public identifiers of quirks mode, by how they begin. -/
def quirksPublicStarts : List String :=
  ["+//silmaril//dtd html pro v0r11 19970101//",
    "-//as//dtd html 3.0 aswedit + extensions//",
    "-//advasoft ltd//dtd html 3.0 aswedit + extensions//",
    "-//ietf//dtd html",
    "-//metrius//dtd metrius presentational//",
    "-//microsoft//dtd internet explorer",
    "-//netscape comm. corp.//dtd",
    "-//o'reilly and associates//dtd html",
    "-//softquad software//dtd hotmetal pro",
    "-//softquad//dtd hotmetal pro",
    "-//spyglass//dtd html 2.0 extended//",
    "-//sq//dtd html 2.0 hotmetal + extensions//",
    "-//sun microsystems corp.//dtd hotjava",
    "-//w3c//dtd html 3",
    "-//w3c//dtd html 4.0 frameset//",
    "-//w3c//dtd html 4.0 transitional//",
    "-//w3c//dtd html experimental",
    "-//w3c//dtd w3 html//",
    "-//w3o//dtd w3 html 3.0//",
    "-//webtechs//dtd mozilla html"]

/-- Public identifiers of quirks mode when no system identifier follows, by how they begin. -/
def quirksStartsWithoutSystem : List String :=
  ["-//w3c//dtd html 4.01 frameset//",
    "-//w3c//dtd html 4.01 transitional//"]

/-- Whole public identifiers of quirks mode. -/
def quirksPublicIds : List String :=
  ["html",
    "-//w3o//dtd w3 html strict 3.0//en//",
    "-/w3c/dtd html 4.0 transitional/en"]

/-- A quoted text after white space, and what follows it. -/
def quoted? (input : List Char) : Option (List Char × List Char) :=
  match stripStartChars input with
  | [] => none
  | c :: rest => if c == '\x22' || c == '\x27' then breakOnChar? c rest else none

/-- A lower-case identifier begins with an entry of the table. -/
def startsWithAny (table : List String) (identifier : String) : Bool :=
  table.any fun start => start.toList.isPrefixOf identifier.toList

/-- Quirks mode by public identifier, given whether a system identifier follows. -/
def quirksIdentifier (identifier : String) (hasSystem : Bool) : Bool :=
  quirksPublicIds.contains identifier ||
    startsWithAny quirksPublicStarts identifier ||
    (!hasSystem && startsWithAny quirksStartsWithoutSystem identifier)

/-- The page of a doctype, such as `DOCTYPE html PUBLIC "..."`, renders in quirks mode. -/
def quirks (value : String) : Bool :=
  let body := stripStartChars ((dropBytes? 7 value.toList).getD [])
  if sameIgnoringCase (String.ofList (body.takeWhile (!isSpace ·))) "html" then
    let ids := stripStartChars (body.dropWhile (!isSpace ·))
    match (afterIgnoringCase? "public".toList ids).bind quoted? with
    | none => false
    | some (identifier, rest) =>
      quirksIdentifier (lower (String.ofList identifier)) (quoted? rest).isSome
  else true

/-- The page with these nodes at its top renders in quirks mode: the first doctype counts, if only
comments, instructions, character data and blank texts stand before it. -/
def pageQuirks : List Content → Bool
  | [] => true
  | top :: rest =>
    match top.kind with
    | .doctype => quirks top.value
    | .comment | .instruction | .cdata => pageQuirks rest
    | .text => if isBlank top.value then pageQuirks rest else true
    | .element | .document => true

end HtmlMinify.Doctype
