import HtmlMinify.Proofs.OpenTags
import HtmlMinify.Proofs.TextReading

/-!
# The markup of a forest

A document is written from its outline, whose nodes carry the tag of their parent. `Forest.markup` is
what is written of a forest of contents that stands inside the elements `outer`, where both the
parent's tag and foreign content are read off from `outer`. There is one equation for each kind of
node.

`Forest.Spelled` says which forests can be written at all, `Forest.Nests` which ones keep their
nesting when read, and `Forest.asRead` is what is then found.
-/

namespace HtmlMinify

open Text

/-! ## Writing -/

/-- The outline of one node below an element with tag `owner`. A start tag closes itself only in
front of no children. -/
def Content.place (owner : Option String) (childless : Bool) (c : Content) : Placed :=
  { c with selfClosing := c.selfClosing && childless, owner }

namespace Forest

/-- The outline of a forest below an element with tag `owner`. -/
def place (owner : Option String) : Forest Content → Forest Placed
  | nil => nil
  | node c children siblings =>
    node (c.place owner (decide (children = nil)))
      (if Document.writesChildren { toContent := c } then children.place c.tag? else nil)
      (siblings.place owner)

/-- The markup of a forest inside the elements `outer`; `closer` ends the innermost of them. -/
def markup (options : WriteOptions) (quirks : Bool) (outer : List String) (closer : Closer)
    (f : Forest Content) : List Char :=
  ((f.place outer.head?).write options quirks outer (Open.inForeign outer) closer).toList

end Forest

/-- A text inside the elements `outer` is raw. -/
def rawIn (outer : List String) : Bool :=
  !Open.inForeign outer && outer.head?.any Tag.isRawText

namespace Content

/-- What stands in for the end tag of an element inside `outer`, if it is left out. -/
def closer? (options : WriteOptions) (quirks : Bool) (outer : List String) (closer : Closer)
    (c : Content) (next : Option Content) : Option Closer :=
  if options.omitEndTags && !Open.inForeign (c.name :: outer) then
    Placed.closer? quirks outer closer ⟨c, outer.head?⟩ (next.map (⟨·, outer.head?⟩))
  else none

/-- The node is an element whose end tag is left out. -/
def omitsEnd (options : WriteOptions) (quirks : Bool) (outer : List String) (closer : Closer)
    (c : Content) (next : Option Content) : Bool :=
  c.isElement && !c.isLeafElement && (c.closer? options quirks outer closer next).isSome

/-- The end tag of an element, unless it is left out. -/
def endTag (c : Content) (omitted : Option Closer) : List Char :=
  if omitted.isSome then [] else (writeEnd c.name).toList

end Content

/-- What stands in for an end tag ends the element. -/
theorem Content.reopens_of_closer? {options : WriteOptions} {quirks : Bool} {outer : List String}
    {closer closer' : Closer} {c : Content} {next : Option Content}
    (h : c.closer? options quirks outer closer next = some closer') :
    closer'.reopens quirks (c.name :: outer) = true := by
  unfold Content.closer? Placed.closer? at h
  split at h
  · split at h
    · exact (Option.filter_eq_some_iff.mp h).2
    · cases h
  · cases h

/-- What stands in for an end tag is the next node's start tag, or else what ends the element
around. -/
theorem Content.eq_of_closer? {options : WriteOptions} {quirks : Bool} {outer : List String}
    {closer closer' : Closer} {c : Content} {next : Option Content}
    (h : c.closer? options quirks outer closer next = some closer') :
    match next with
    | none => closer' = closer
    | some n => n.isElement = true ∧ closer' = .startTag n.name outer.length := by
  unfold Content.closer? Placed.closer? at h
  split at h
  · split at h
    · have htrigger := (Option.filter_eq_some_iff.mp h).1
      cases next with
      | none => exact (Option.some.inj htrigger).symm
      | some n =>
        simp only [Option.map_some] at htrigger
        split at htrigger
        · next helement => exact ⟨helement, (Option.some.inj htrigger).symm⟩
        · cases htrigger
    · cases h
  · cases h

/-- In front of a text an end tag is never left out. -/
theorem Content.not_isText_of_closer? {options : WriteOptions} {quirks : Bool}
    {outer : List String} {closer closer' : Closer} {c : Content} {next : Option Content}
    (h : c.closer? options quirks outer closer next = some closer') :
    next.any (·.isText) = false := by
  have htrigger := Content.eq_of_closer? h
  cases next with
  | none => rfl
  | some n =>
    have helement : n.kind = .element := by simpa [isElement] using htrigger.1
    simp [isText, helement]

/-- The end tag of a raw text element is never left out. -/
theorem Content.rawIn_of_closer? {options : WriteOptions} {quirks : Bool}
    {outer : List String} {closer closer' : Closer} {c : Content} {next : Option Content}
    (h : c.closer? options quirks outer closer next = some closer') :
    rawIn (c.name :: outer) = false := by
  rw [Bool.eq_false_iff]
  intro hraw
  have hisRaw : Tag.isRawText (Placed.mk c outer.head?).name = true := by
    simp only [rawIn, List.head?_cons, Option.any_some, Bool.and_eq_true] at hraw
    exact hraw.2
  have hnever := Placed.mayOmitEnd_of_isRawText hisRaw
  unfold Content.closer? Placed.closer? at h
  split at h
  · split at h
    · next homit =>
      rw [hnever] at homit
      cases homit
    · cases h
  · cases h

/-- Of the next node only its kind and name count for an end tag. -/
theorem Placed.closer?_congr {quirks : Bool} {outer : List String} {closer : Closer}
    {element : Placed} {next next' : Placed} (hkind : next.kind = next'.kind)
    (hname : next.name = next'.name) :
    element.closer? quirks outer closer (some next) =
      element.closer? quirks outer closer (some next') := by
  unfold closer? mayOmitEnd Content.isElement
  simp only [hkind, hname, Option.any_some, Option.isNone_some]

section

variable (owner : Option String) (childless : Bool) (c : Content)

/-- A placed node keeps its kind. -/
@[simp]
theorem Content.kind_place : (c.place owner childless).kind = c.kind := rfl

/-- It keeps its value. -/
@[simp]
theorem Content.value_place : (c.place owner childless).value = c.value := rfl

/-- It knows the element it was placed in. -/
@[simp]
theorem Content.owner_place : (c.place owner childless).owner = owner := rfl

end

/-- A node without children is written as it is. -/
theorem Content.place_of_childless (owner : Option String) (c : Content) :
    c.place owner true = ⟨c, owner⟩ := by
  rw [place, Bool.and_true]

/-- A node that does not close itself is written as it is. -/
theorem Content.place_of_not_selfClosing {c : Content} (h : c.selfClosing = false)
    (owner : Option String) (childless : Bool) : c.place owner childless = ⟨c, owner⟩ := by
  rw [place, h, Bool.false_and, ← h]

namespace Forest

variable {options : WriteOptions} {quirks : Bool} {outer : List String} {closer : Closer}
  {c : Content} {children siblings : Forest Content}

@[simp]
theorem markup_nil : markup options quirks outer closer nil = [] := rfl

/-- A comment or declaration is written, and then the rest. -/
theorem markup_of_isDeclaration (h : c.isDeclaration = true) :
    markup options quirks outer closer (node c children siblings) =
      c.writeLeaf ++ siblings.markup options quirks outer closer := by
  unfold markup Content.writeLeaf
  unfold Content.isDeclaration at h
  rw [place, write]
  split at h
  · next hkind => simp [hkind]
  · next hkind => simp [hkind]
  · next hkind => simp [hkind]
  · next hkind => simp [hkind]
  · cases h

/-- A text is written, escaped unless it is raw, and then the rest. -/
theorem markup_of_text (h : c.kind = .text) :
    markup options quirks outer closer (node c children siblings) =
      (if rawIn outer then c.value else escapeText c.value).toList ++
        siblings.markup options quirks outer closer := by
  unfold markup rawIn
  rw [place, write]
  simp only [Content.kind_place, Content.value_place, Content.owner_place, h,
    String.toList_append]
  rfl

/-- The next sibling's outline, as far as an end tag depends on it. -/
theorem closer?_place (element : Content) (owner : Option String) :
    Placed.closer? quirks outer closer ⟨element, owner⟩ (siblings.place owner).head? =
      Placed.closer? quirks outer closer ⟨element, owner⟩ (siblings.head?.map (⟨·, owner⟩)) := by
  cases siblings with
  | nil => rfl
  | node next below after => exact Placed.closer?_congr rfl rfl

/-- An element without content is written as its start tag, and then the rest. -/
theorem markup_of_leafElement (hkind : c.kind = .element) (h : c.isLeafElement = true)
    (hchildren : children = nil) :
    markup options quirks outer closer (node c children siblings) =
      (c.writeStart options).toList ++ siblings.markup options quirks outer closer := by
  subst hchildren
  unfold markup
  unfold Content.isLeafElement at h
  rw [place, decide_eq_true rfl, Content.place_of_childless, write]
  simp only [hkind, h, if_true, String.toList_append]

/-- **An element is written as its start tag, its children and its end tag**, unless that is left
out, and then the rest. -/
theorem markup_of_element (hkind : c.kind = .element) (h : c.isLeafElement = false) :
    markup options quirks outer closer (node c children siblings) =
      (c.writeStart options).toList ++
        (children.markup options quirks (c.name :: outer)
            ((c.closer? options quirks outer closer siblings.head?).getD
              (.endTag c.name outer.length)) ++
          (c.endTag (c.closer? options quirks outer closer siblings.head?) ++
            siblings.markup options quirks outer closer)) := by
  unfold Content.isLeafElement at h
  obtain ⟨hself, hvoid⟩ := Bool.or_eq_false_iff.mp h
  have hforeign : (Open.inForeign outer || Tag.isForeignRoot c.name) =
      Open.inForeign (c.name :: outer) := by
    rw [Open.inForeign_cons, Bool.or_comm]
  have hwrites : Document.writesChildren { toContent := c } = true := by
    simp [Document.writesChildren, hkind, hvoid]
  unfold markup
  rw [place, Content.place_of_not_selfClosing hself, hwrites, if_pos rfl, write]
  simp only [hkind, hself, hvoid, Bool.false_or, Bool.false_eq_true, if_false, Content.tag?,
    if_true, hforeign, closer?_place, String.toList_append]
  rw [Content.closer?, Content.endTag]
  split <;> simp [apply_ite String.toList]

/-! ## Forests that can be written -/

/-- A node can stand inside `outer`, above `children` and in front of `next`: it is spelled well, has
children only if its kind can, closes itself only in foreign content, and no text follows a text. -/
structure NodeBuilt (outer : List String) (c : Content) (children : Forest Content)
    (next : Option Content) : Prop where
  spelled : c.Spelled
  childless : c.isElement = false ∨ c.isLeafElement = true → children = nil
  foreign : c.isElement = true → c.selfClosing = true → Open.inForeign (c.name :: outer) = true
  apart : c.isText = true → next.any (·.isText) = false

/-- The children of a raw text element: at most one text, without the element's end tag. -/
def RawBelow (tag : String) : Forest Content → Prop
  | nil => True
  | node c below after =>
    c.kind = .text ∧ IsRawText tag c.value.toList ∧ below = nil ∧ after = nil

instance (tag : String) : (f : Forest Content) → Decidable (f.RawBelow tag)
  | nil => inferInstanceAs (Decidable True)
  | node _ _ _ => inferInstanceAs (Decidable (_ ∧ _ ∧ _ ∧ _))

/-- A node can also be told apart from what is around it: its attributes from each other, its raw
text from its end tag. Nothing ends the raw text of `plaintext`. -/
structure NodeSpelled (options : WriteOptions) (outer : List String) (c : Content)
    (children : Forest Content) (next : Option Content) : Prop
    extends NodeBuilt outer c children next where
  separate : c.isElement = true → c.attributes.Separate options
  raw : c.isElement = true → rawIn (c.name :: outer) = true →
    sameIgnoringCase c.name "plaintext" = false ∧ children.RawBelow c.name

instance (options : WriteOptions) (outer : List String) (c : Content) (children : Forest Content)
    (next : Option Content) : Decidable (NodeSpelled options outer c children next) :=
  decidable_of_iff
    ((c.Spelled ∧ (c.isElement = false ∨ c.isLeafElement = true → children = nil) ∧
        (c.isElement = true → c.selfClosing = true → Open.inForeign (c.name :: outer) = true) ∧
        (c.isText = true → next.any (·.isText) = false)) ∧
      (c.isElement = true → c.attributes.Separate options) ∧
      (c.isElement = true → rawIn (c.name :: outer) = true →
        sameIgnoringCase c.name "plaintext" = false ∧ children.RawBelow c.name))
    ⟨fun ⟨⟨h₁, h₂, h₃, h₄⟩, h₅, h₆⟩ => ⟨⟨h₁, h₂, h₃, h₄⟩, h₅, h₆⟩,
      fun ⟨⟨h₁, h₂, h₃, h₄⟩, h₅, h₆⟩ => ⟨⟨h₁, h₂, h₃, h₄⟩, h₅, h₆⟩⟩

/-- Every node of a forest inside `outer` can stand where it is. -/
def Built : List String → Forest Content → Prop
  | _, nil => True
  | outer, node c children siblings =>
    NodeBuilt outer c children siblings.head? ∧ children.Built (c.name :: outer) ∧
      siblings.Built outer

/-- Every node of a forest inside `outer` can stand where it is, and be told apart there. -/
def Spelled (options : WriteOptions) : List String → Forest Content → Prop
  | _, nil => True
  | outer, node c children siblings =>
    NodeSpelled options outer c children siblings.head? ∧
      children.Spelled options (c.name :: outer) ∧ siblings.Spelled options outer

/-- What can be told apart can stand where it is. -/
theorem Spelled.built {f : Forest Content} (h : f.Spelled options outer) : f.Built outer := by
  induction f generalizing outer with
  | nil => trivial
  | node c children siblings ihc ihs => exact ⟨h.1.toNodeBuilt, ihc h.2.1, ihs h.2.2⟩

/-- A document node is nowhere in a forest that can be written. -/
theorem Built.kind_ne_document {f : Forest Content} (h : f.Built outer) :
    ∀ c ∈ f.toList, c.kind ≠ .document := by
  induction f generalizing outer with
  | nil => simp [toList]
  | node c children siblings ihc ihs =>
    obtain ⟨hnode, hchildren, hsiblings⟩ := h
    intro other hother
    rw [toList, List.mem_cons, List.mem_append] at hother
    rcases hother with rfl | hother | hother
    · intro hkind
      have := hnode.spelled
      rw [Content.Spelled, hkind] at this
      exact this
    · exact ihc hchildren other hother
    · exact ihs hsiblings other hother

/-- No start tag in the forest ends an element around it. -/
def WellNested (quirks : Bool) : List String → Forest Content → Prop
  | _, nil => True
  | outer, node c children siblings =>
    (c.isElement = true → Open.afterStart c.name quirks outer = outer) ∧
      children.WellNested quirks (c.name :: outer) ∧ siblings.WellNested quirks outer

/-- The number of elements that are open at the deepest point of the forest. -/
def height : Forest Content → Nat
  | nil => 0
  | node c children siblings =>
    max (if c.isElement && !c.isLeafElement then children.height + 1 else 0) siblings.height

instance instDecidableSpelled (options : WriteOptions) : (outer : List String) →
    (f : Forest Content) → Decidable (f.Spelled options outer)
  | _, nil => inferInstanceAs (Decidable True)
  | outer, node c children siblings =>
    have := instDecidableSpelled options (c.name :: outer) children
    have := instDecidableSpelled options outer siblings
    inferInstanceAs (Decidable (_ ∧ _ ∧ _))

instance instDecidableWellNested (quirks : Bool) : (outer : List String) →
    (f : Forest Content) → Decidable (f.WellNested quirks outer)
  | _, nil => inferInstanceAs (Decidable True)
  | outer, node c children siblings =>
    have := instDecidableWellNested quirks (c.name :: outer) children
    have := instDecidableWellNested quirks outer siblings
    inferInstanceAs (Decidable ((_ → _ = _) ∧ _ ∧ _))

/-- Every start tag comes where only elements are open that it has to stand in, or that it ends in
place of an end tag that was left out: that of the node before is, if `ended`. -/
def Nests (options : WriteOptions) (quirks : Bool) :
    List String → Closer → Bool → Forest Content → Prop
  | _, _, _, nil => True
  | outer, closer, ended, node c children siblings =>
    (c.isElement = true → ended = false → Open.afterStart c.name quirks outer = outer) ∧
      children.Nests options quirks (c.name :: outer)
        ((c.closer? options quirks outer closer siblings.head?).getD (.endTag c.name outer.length))
        false ∧
      siblings.Nests options quirks outer closer
        (c.omitsEnd options quirks outer closer siblings.head?)

/-- A well nested forest stays so when end tags are left out. -/
theorem WellNested.nests {f : Forest Content} (h : f.WellNested quirks outer)
    (options : WriteOptions) (closer : Closer) (ended : Bool) :
    f.Nests options quirks outer closer ended := by
  induction f generalizing outer closer ended with
  | nil => trivial
  | node c children siblings ihc ihs =>
    obtain ⟨hstart, hchildren, hsiblings⟩ := h
    exact ⟨fun hc _ => hstart hc, ihc hchildren _ _, ihs hsiblings _ _⟩

/-! ## What is read -/

/-- The forest as it is found when its markup is read. -/
def asRead (options : WriteOptions) : List String → Forest Content → Forest Content
  | _, nil => nil
  | outer, node c children siblings =>
    node (c.asRead options (rawIn outer)) (children.asRead options (c.name :: outer))
      (siblings.asRead options outer)

/-- What does not begin with a text begins with `<`, or is empty. -/
theorem head?_markup {f : Forest Content} (h : f.Built outer)
    (htext : f.head?.any (·.isText) = false) {rest : List Char}
    (hrest : rest.head?.all (· == '<') = true) :
    (f.markup options quirks outer closer ++ rest).head?.all (· == '<') = true := by
  cases f with
  | nil => exact hrest
  | node c children siblings =>
    have hspelled := h.1.spelled
    have hnot : c.isText = false := by simpa [head?] using htext
    cases hkind : c.kind with
    | element =>
      cases hleaf : c.isLeafElement with
      | true =>
        rw [markup_of_leafElement hkind hleaf (h.1.childless (.inr hleaf)),
          Content.toList_writeStart]
        rfl
      | false =>
        rw [markup_of_element hkind hleaf, Content.toList_writeStart]
        rfl
    | text => simp [Content.isText, hkind] at hnot
    | document => simp [Content.Spelled, Content.SpelledAs, hkind] at hspelled
    | comment | cdata | instruction | doctype =>
      rw [markup_of_isDeclaration (by simp [Content.isDeclaration, hkind])]
      simp [Content.writeLeaf, hkind]

end Forest

end HtmlMinify
