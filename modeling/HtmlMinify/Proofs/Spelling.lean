import HtmlMinify.Markup.Token
import HtmlMinify.Markup.Write
import Mathlib.Data.List.Infix

/-!
# How the parts of a page are spelled

Not every name, value or text can stand in markup. `Tag.IsName`, `Attribute.IsName`,
`Attributes.Named` and `Content.Spelled` say which ones can; the conditions are decidable, and each
speaks of one node alone. `Attributes.Separate` says when attributes can stand next to each other.

Reading does not decode anything, so what was escaped on the way out comes back escaped:
`Content.asRead` is a node as it is found when its written form is read.
-/

namespace HtmlMinify

open Text

/-- A tag name begins with a letter and holds no whitespace, `/` or `>`. -/
def Tag.IsName (name : String) : Prop :=
  name.toList.head?.any Char.isAlpha = true ∧ ∀ c ∈ name.toList, endsName c = false

instance (name : String) : Decidable (Tag.IsName name) :=
  have := List.decidableBAll (endsName · = false) name.toList
  inferInstanceAs (Decidable (_ ∧ _))

/-! ## Attributes -/

namespace Attribute

/-- An attribute name is not empty, holds no whitespace, `/` or `>`, and `=` only in front. -/
def IsName (name : String) : Prop :=
  name.toList ≠ [] ∧ (∀ c ∈ name.toList, endsName c = false) ∧ '=' ∉ name.toList.tail

instance (name : String) : Decidable (IsName name) :=
  have := List.decidableBAll (endsName · = false) name.toList
  inferInstanceAs (Decidable (_ ∧ _ ∧ _))

/-- Only the name of the attribute is written. -/
def writesNoValue (options : WriteOptions) (a : Attribute) : Bool :=
  match a.value with
  | none => true
  | some value => options.omitQuotes && value.isEmpty

/-- The name begins with `=`. -/
def beginsWithEq (a : Attribute) : Bool :=
  a.name.toList.head? == some '='

/-- A value that holds both quotes keeps neither as a delimiter: double ones are escaped. -/
def valueAsRead (value : String) : String :=
  if value.toList.contains '\x22' && value.toList.contains '\x27' then
    String.ofList (value.toList.flatMap escapeQuote)
  else value

/-- The attribute as it is found when its written form is read. -/
def asRead (options : WriteOptions) (a : Attribute) : Attribute :=
  match a.value with
  | none => a
  | some value =>
    { a with
      value := if options.omitQuotes && value.isEmpty then none else some (valueAsRead value) }

end Attribute

namespace Attributes

/-- The names of the attributes can stand in a tag, and no key occurs twice. -/
def Named (as : Attributes) : Prop :=
  (∀ a ∈ as.toList, Attribute.IsName a.name) ∧ (as.toList.map (·.key)).Nodup

instance (as : Attributes) : Decidable as.Named :=
  inferInstanceAs (Decidable (_ ∧ _))

/-- After a name without a value no name begins with `=`, which would be read as its value. -/
def Separate (options : WriteOptions) (as : Attributes) : Prop :=
  as.toList.IsChain fun a b => a.writesNoValue options = true → b.beginsWithEq = false

instance (options : WriteOptions) (as : Attributes) : Decidable (as.Separate options) :=
  inferInstanceAs (Decidable (List.IsChain _ _))

/-- The attributes as they are found when their written form is read. -/
def asRead (options : WriteOptions) (as : Attributes) : Attributes :=
  ⟨as.toList.map (·.asRead options)⟩

end Attributes

/-! ## Nodes -/

/-- The end tag of the raw text element `tag`, with what ends its name, begins here. -/
def endsRawElement (tag : String) : List Char → Bool
  | '<' :: '/' :: rest =>
    match afterIgnoringCase? tag.toList rest with
    | some (c :: _) => endsName c
    | _ => false
  | _ => false

/-- A text that can be the content of the raw text element `tag`: its end tag is nowhere in it. -/
def IsRawText (tag : String) (text : List Char) : Prop :=
  ∀ rest ∈ text.tails, endsRawElement tag rest = false

instance (tag : String) (text : List Char) : Decidable (IsRawText tag text) :=
  inferInstanceAs (Decidable (∀ rest ∈ text.tails, endsRawElement tag rest = false))

namespace Content

/-- The node, taken as one of the given kind, can stand in markup, whatever is around it. -/
def SpelledAs (c : Content) : NodeKind → Prop
  | .document => False
  | .element => Tag.IsName c.name ∧ c.attributes.Named
  | .text => c.value ≠ ""
  | .comment =>
    ¬ ['-', '-', '>'] <:+: c.value.toList ∧ ¬ ['>'] <+: c.value.toList ∧
      ¬ ['-', '>'] <+: c.value.toList
  | .cdata => ¬ [']', ']', '>'] <:+: c.value.toList
  | .instruction => '>' ∉ c.value.toList
  | .doctype =>
    '>' ∉ c.value.toList ∧ (afterIgnoringCase? "doctype".toList c.value.toList).isSome = true

/-- The node can stand in markup, whatever is around it. -/
def Spelled (c : Content) : Prop :=
  c.SpelledAs c.kind

instance (c : Content) : (kind : NodeKind) → Decidable (c.SpelledAs kind)
  | .document => inferInstanceAs (Decidable False)
  | .element => inferInstanceAs (Decidable (_ ∧ _))
  | .text => inferInstanceAs (Decidable (_ ≠ _))
  | .comment => inferInstanceAs (Decidable (_ ∧ _ ∧ _))
  | .cdata => inferInstanceAs (Decidable (¬ _))
  | .instruction => inferInstanceAs (Decidable (_ ∉ _))
  | .doctype => inferInstanceAs (Decidable (_ ∧ _))

instance (c : Content) : Decidable c.Spelled :=
  inferInstanceAs (Decidable (c.SpelledAs c.kind))

/-- The node as it is found when its written form is read, as raw text or not. -/
def asRead (options : WriteOptions) (raw : Bool) (c : Content) : Content :=
  match c.kind with
  | .element => .element c.name (c.attributes.asRead options) c.selfClosing
  | .text => .leaf .text (if raw then c.value else escapeText c.value)
  | kind => .leaf kind c.value

/-- An element is read with its name and its attributes as they are read. -/
theorem asRead_element {c : Content} (h : c.kind = .element) (options : WriteOptions) (raw : Bool) :
    c.asRead options raw = .element c.name (c.attributes.asRead options) c.selfClosing := by
  rw [asRead, h]

/-- A text is read escaped, unless it is raw. -/
theorem asRead_text {c : Content} (h : c.kind = .text) (options : WriteOptions) (raw : Bool) :
    c.asRead options raw = .leaf .text (if raw then c.value else escapeText c.value) := by
  rw [asRead, h]

/-- Reading back does not change the kind of a node. -/
theorem kind_asRead (c : Content) (options : WriteOptions) (raw : Bool) :
    (c.asRead options raw).kind = c.kind := by
  unfold asRead
  split
  · next h => exact h.symm
  · next h => exact h.symm
  · rfl

/-- Texts are read back as texts, and nothing else is. -/
theorem isText_asRead (c : Content) (options : WriteOptions) (raw : Bool) :
    (c.asRead options raw).isText = c.isText := by
  rw [isText, isText, kind_asRead]

/-- An element that takes no content: it is void, or its start tag closes it. -/
def isLeafElement (c : Content) : Bool :=
  c.selfClosing || Tag.isVoid c.name

end Content

end HtmlMinify
