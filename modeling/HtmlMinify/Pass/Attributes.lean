import HtmlMinify.Node
import HtmlMinify.Pass.Context

/-! # Rules on the attributes of one element

Each rule gives the attributes that an element keeps and how many it changed. Values are compared
without ASCII case and without whitespace around them.
-/

namespace HtmlMinify.AttributeRule

open Text

/-- The attribute is there and its value is `expected`, case and outer whitespace aside. -/
def valueIs (as : Attributes) (name expected : String) : Bool :=
  (as.get? name).any fun a => sameIgnoringCase (trim a.valueOrEmpty) expected

/-- Attributes and a number of changes. -/
abbrev Result := Attributes × Nat

/-- Nothing changes. -/
def keep (as : Attributes) : Result :=
  (as, 0)

/-- Drops an attribute, if it is there. -/
def drop (as : Attributes) (name : String) : Result :=
  if as.contains name then (as.erase name, 1) else keep as

/-- Drops an attribute, if its value is `expected`. -/
def dropIf (as : Attributes) (name expected : String) : Result :=
  if valueIs as name expected then drop as name else keep as

/-- One rule after another. -/
def andThen (first : Result) (next : Attributes → Result) : Result :=
  let (as, n) := next first.1
  (as, first.2 + n)

/-- A link element that refers to a style sheet. -/
def isStylesheetLink (c : Content) : Bool :=
  c.isTag "link" &&
    (c.attributes.value? "rel").any fun rel => (words rel).any (sameIgnoringCase · "stylesheet")

/-! ## Defaults -/

/-- Tag, attribute and default value. -/
def defaults : List (String × String × String) :=
  [("a", "target", "_self"),
    ("area", "shape", "rect"),
    ("canvas", "height", "150"),
    ("canvas", "width", "300"),
    ("col", "span", "1"),
    ("colgroup", "span", "1"),
    ("form", "autocomplete", "on"),
    ("form", "enctype", "application/x-www-form-urlencoded"),
    ("form", "method", "get"),
    ("img", "decoding", "auto"),
    ("input", "type", "text"),
    ("meter", "max", "1"),
    ("meter", "min", "0"),
    ("ol", "type", "1"),
    ("progress", "max", "1"),
    ("td", "colspan", "1"),
    ("td", "rowspan", "1"),
    ("textarea", "wrap", "soft"),
    ("th", "colspan", "1"),
    ("th", "rowspan", "1"),
    ("track", "kind", "subtitles")]

/-- Attributes that only state their default go. -/
def removeDefaults (ctx : Context) (c : Content) : Result :=
  defaults.foldl
    (fun result (tag, name, value) =>
      if c.isTag tag && ctx.defaultAttributeFilter.all (·.contains name) then
        andThen result (dropIf · name value)
      else result)
    (keep c.attributes)

/-! ## Single attributes -/

/-- The name of an anchor goes if its id is the same. -/
def removeAnchorName (c : Content) : Result :=
  let id := c.attributes.value? "id"
  if c.isTag "a" && id.isSome && c.attributes.value? "name" == id then drop c.attributes "name"
  else keep c.attributes

/-- The character set of a script goes. -/
def removeScriptCharset (c : Content) : Result :=
  if c.isTag "script" then drop c.attributes "charset" else keep c.attributes

/-- Types that say that a script is JavaScript. -/
def javaScriptTypes : List String :=
  ["", "application/ecmascript", "application/javascript", "application/x-ecmascript",
    "application/x-javascript", "text/ecmascript", "text/javascript", "text/javascript1.0",
    "text/javascript1.5", "text/jscript", "text/x-ecmascript", "text/x-javascript"]

/-- Type and language of a script go if they only say that it is JavaScript. -/
def removeScriptType (c : Content) : Result :=
  if c.isTag "script" then
    andThen
      (if javaScriptTypes.any (valueIs c.attributes "type") then drop c.attributes "type"
        else keep c.attributes)
      (dropIf · "language" "javascript")
  else keep c.attributes

/-- The usual type of a style sheet link goes. -/
def removeStylesheetLinkType (c : Content) : Result :=
  if isStylesheetLink c then dropIf c.attributes "type" "text/css" else keep c.attributes

/-- The usual type of a style sheet goes. -/
def removeStyleAndLinkType (c : Content) : Result :=
  if c.isTag "style" || isStylesheetLink c then dropIf c.attributes "type" "text/css"
  else keep c.attributes

/-- The media of a style sheet goes if it is all. -/
def removeDefaultMedia (c : Content) : Result :=
  if c.isTag "style" || c.isTag "link" then dropIf c.attributes "media" "all"
  else keep c.attributes

/-- The usual type of a button goes. -/
def removeButtonType (c : Content) : Result :=
  if c.isTag "button" then dropIf c.attributes "type" "submit" else keep c.attributes

/-! ## Empty values -/

/-- Attributes for which empty and absent are the same. -/
def emptyIsAbsent : List String :=
  ["class", "dir", "id", "style"]

/-- An event handler: `on` and more. -/
def isHandler (name : String) : Bool :=
  (afterIgnoringCase? ['o', 'n'] name.toList).any (!·.isEmpty)

/-- An attribute that says nothing. -/
def saysNothing (a : Attribute) : Bool :=
  (emptyIsAbsent.any a.is || isHandler a.name) && isBlank a.valueOrEmpty

/-- Attributes that say nothing go. -/
def removeEmpty (c : Content) : Result :=
  let kept := c.attributes.filter (!saysNothing ·)
  (kept, c.attributes.size - kept.size)

/-- Types of input whose empty value differs from none. -/
def emptyValueShows : List String :=
  ["button", "checkbox", "image", "radio", "reset", "submit"]

/-- The empty value of an input goes, if none is the same. -/
def removeEmptyInputValue (c : Content) : Result :=
  if c.isTag "input" && c.attributes.value? "value" == some "" &&
      !emptyValueShows.any (valueIs c.attributes "type") then
    drop c.attributes "value"
  else keep c.attributes

/-! ## Order -/

/-- The class names of a value in order, one blank between two. -/
def sortedWords (value : String) : String :=
  " ".intercalate ((words value).mergeSort fun a b => decide (a ≤ b))

/-- The value of a `class` attribute with its names in order. -/
def sortClass (a : Attribute) : Attribute :=
  match a.value with
  | none => a
  | some value => if isBlank value then a else { a with value := some (sortedWords value) }

/-- Changes the first attribute that satisfies `p`. -/
def modifyFirst (p : Attribute → Bool) (change : Attribute → Attribute) :
    List Attribute → List Attribute
  | [] => []
  | a :: as => if p a then change a :: as else a :: modifyFirst p change as

/-- Class names are put in order. -/
def sortClassNames (c : Content) : Result :=
  let sorted : Attributes := ⟨modifyFirst (·.is "class") sortClass c.attributes.toList⟩
  (sorted, if sorted = c.attributes then 0 else 1)

/-- Attributes are put in order of their names: how many places have another name then. -/
def sortByName (c : Content) : Result :=
  let sorted := c.attributes.sortByName
  let moved := (sorted.toList.zip c.attributes.toList).filter fun (a, b) => a.name != b.name
  (sorted, moved.length)

end HtmlMinify.AttributeRule
