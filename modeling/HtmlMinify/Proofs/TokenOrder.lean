import HtmlMinify.Proofs.KeptText
import HtmlMinify.Proofs.TokenLog
import Mathlib.Data.List.Forall2

/-!
# A page holds what its tokens say, in their order

Each token leaves pieces in a page: a text its characters, a tag an element, an end tag of `br` or `p`
sometimes an element that has no start tag. `Forest.Tells` says that a forest holds given pieces and
nothing else, in document order. Texts grow and elements end in many places, but always at the end of
what was built, so a builder tells the pieces of the tokens taken so far, in the order in which they
came.

## Main statements

* `Builder.Tells.effect`: a token adds its pieces at the end.
* `Builder.Reads.tells`: a page tells the pieces of its tokens.
* `Document.parse_keeps_tokens`: texts, comments, declarations and elements are those of the tokens.
-/

namespace HtmlMinify

open Text

/-- Comments and declarations are neither texts nor elements. -/
theorem Content.apart_of_isDeclaration {c : Content} (h : c.isDeclaration = true) :
    c.isText = false ∧ c.isElement = false := by
  unfold Content.isDeclaration at h
  unfold Content.isText Content.isElement
  cases hkind : c.kind <;> simp [hkind] at h ⊢

/-- What a token leaves in a page. -/
inductive Piece where
  /-- A character of a text. -/
  | char (c : Char)
  /-- A comment or declaration. -/
  | leaf (c : Content)
  /-- The element of a start tag. -/
  | element (tag : StartTag)
  /-- The line break for an end tag of `br`. -/
  | lineBreak
  /-- The empty paragraph for an end tag of `p` that ends nothing. -/
  | paragraph
deriving Repr, DecidableEq

namespace Piece

/-- The piece is there as this node, above these children. -/
def Is : Piece → Content → Forest Content → Prop
  | char _, _, _ => False
  | leaf d, c, children => c = d ∧ c.isDeclaration = true ∧ children = .nil
  | element tag, c, _ => c.isElement = true ∧ c.name = tag.name ∧ c.attributes = tag.attributes
  | lineBreak, c, children => c = .element "br" .empty false ∧ children = .nil
  | paragraph, c, children => c = .element "p" .empty false ∧ children = .nil

/-- The character of a text. -/
def char? : Piece → Option Char
  | char c => some c
  | _ => none

/-- The comment or declaration. -/
def leaf? : Piece → Option Content
  | leaf c => some c
  | _ => none

/-- The piece is an element. -/
def isElement : Piece → Bool
  | element _ | lineBreak | paragraph => true
  | _ => false

namespace Is

variable {piece : Piece} {c : Content} {children : Forest Content}

/-- A piece that is a node is no character. -/
theorem char?_eq (h : piece.Is c children) : piece.char? = none := by
  cases piece with
  | char _ => exact h.elim
  | _ => rfl

/-- It is no text. -/
theorem isText_eq (h : piece.Is c children) : c.isText = false := by
  cases piece with
  | char _ => exact h.elim
  | leaf d => exact (Content.apart_of_isDeclaration h.2.1).1
  | element tag =>
    have hkind : c.kind = .element := by simpa [Content.isElement] using h.1
    simp [Content.isText, hkind]
  | lineBreak | paragraph =>
    rw [h.1]
    rfl

/-- It is an element if the node is one. -/
theorem isElement_eq (h : piece.Is c children) : piece.isElement = c.isElement := by
  cases piece with
  | char _ => exact h.elim
  | leaf d => exact (Content.apart_of_isDeclaration h.2.1).2.symm
  | element tag => exact h.1.symm
  | lineBreak | paragraph =>
    rw [h.1]
    rfl

/-- It is a leaf if the node is a declaration. -/
theorem leaf?_eq (h : piece.Is c children) :
    piece.leaf? = if c.isDeclaration then some c else none := by
  cases piece with
  | char _ => exact h.elim
  | leaf d => rw [if_pos h.2.1, leaf?, h.1]
  | element tag =>
    have hkind : c.kind = .element := by simpa [Content.isElement] using h.1
    simp [leaf?, Content.isDeclaration, hkind]
  | lineBreak | paragraph =>
    rw [h.1]
    rfl

end Is

end Piece

/-- The characters of a text. -/
def Token.chars : Token → List Char
  | .text value => value.toList
  | _ => []

/-- A token that leaves a leaf leaves a declaration. -/
theorem Token.isDeclaration_of_leaf? {token : Token} {c : Content} (h : token.leaf? = some c) :
    c.isDeclaration = true := by
  cases token <;> cases h <;> rfl

namespace Builder.Event

/-- The elements that come with a token: that of a start tag, and outside foreign content a line break
for every end tag of `br`, and an empty paragraph for every end tag of `p` that ends nothing. -/
def elements (e : Event) : List Piece :=
  match e.token with
  | .startTag tag => [.element tag]
  | .endTag name =>
    if Open.inForeign e.outer then []
    else if sameIgnoringCase name "br" then [.lineBreak]
    else if sameIgnoringCase name "p" && Open.afterEnd name e.outer == e.outer then [.paragraph]
    else []
  | _ => []

/-- All that a token leaves in a page. -/
def pieces (e : Event) : List Piece :=
  e.token.chars.map .char ++ ((e.token.leaf?.map .leaf).toList ++ e.elements)

/-- A text says its characters. -/
theorem pieces_text (value : String) (outer : List String) :
    (Event.mk (.text value) outer).pieces = value.toList.map .char :=
  List.append_nil _

/-- A comment or declaration says its node. -/
theorem pieces_of_leaf? {token : Token} {c : Content} (h : token.leaf? = some c)
    (outer : List String) : (Event.mk token outer).pieces = [.leaf c] := by
  cases token <;> cases h <;> rfl

/-- An end tag of `br` says a line break. -/
theorem pieces_lineBreak {name : String} {outer : List String}
    (hname : sameIgnoringCase name "br" = true) (hhtml : Open.inForeign outer = false) :
    (Event.mk (.endTag name) outer).pieces = [.lineBreak] := by
  show elements ⟨.endTag name, outer⟩ = _
  simp [elements, hhtml, hname]

/-- An end tag of `p` that ends nothing says a paragraph. -/
theorem pieces_paragraph {name : String} {outer : List String}
    (hname : sameIgnoringCase name "p" = true) (hhtml : Open.inForeign outer = false)
    (hends : Open.afterEnd name outer = outer) :
    (Event.mk (.endTag name) outer).pieces = [.paragraph] := by
  have hlower : lower name = lower "p" := by simpa [sameIgnoringCase] using hname
  have hbr : sameIgnoringCase name "br" = false := by
    rw [sameIgnoringCase, hlower]
    decide
  show elements ⟨.endTag name, outer⟩ = _
  simp [elements, hhtml, hbr, hname, hends]

/-- An end tag that ends something, or stands for nothing, leaves nothing. -/
theorem pieces_endTag {name : String} {outer : List String}
    (hbr : (sameIgnoringCase name "br" && !Open.inForeign outer) = false)
    (hp : Open.afterEnd name outer = outer →
      (sameIgnoringCase name "p" && !Open.inForeign outer) = false) :
    (Event.mk (.endTag name) outer).pieces = [] := by
  show elements ⟨.endTag name, outer⟩ = _
  cases hforeign : Open.inForeign outer with
  | true => simp [elements, hforeign]
  | false =>
    simp only [hforeign, Bool.not_false, Bool.and_true] at hbr hp
    simp only [elements, hforeign, hbr]
    simpa using fun hname hends => by simp [hp hends] at hname

end Builder.Event

/-! ## Forests -/

namespace Forest

/-- The forest holds these pieces and no others, in document order. -/
inductive Tells : Forest Content → List Piece → Prop where
  | nil : Tells nil []
  | text {c : Content} {siblings : Forest Content} {ps : List Piece} (htext : c.isText = true)
    (hsiblings : Tells siblings ps) : Tells (node c nil siblings) (c.value.toList.map .char ++ ps)
  | node {piece : Piece} {c : Content} {children siblings : Forest Content} {ps qs : List Piece}
    (his : piece.Is c children) (hchildren : Tells children ps) (hsiblings : Tells siblings qs) :
    Tells (node c children siblings) (piece :: (ps ++ qs))

namespace Tells

/-- Two forests say what the first says, then what the second does. -/
theorem append {f g : Forest Content} {ps qs : List Piece} (hf : f.Tells ps) (hg : g.Tells qs) :
    (f ++ g).Tells (ps ++ qs) := by
  induction hf with
  | nil => exact hg
  | text htext _ ih =>
    rw [node_append, List.append_assoc]
    exact .text htext ih
  | node his hchildren _ _ ih =>
    rw [node_append, List.cons_append, List.append_assoc]
    exact .node his hchildren ih

/-- What two forests tell is told by one after the other. -/
theorem exists_of_append {f g : Forest Content} {ps : List Piece} (h : (f ++ g).Tells ps) :
    ∃ before after, ps = before ++ after ∧ f.Tells before ∧ g.Tells after := by
  induction f generalizing ps with
  | nil => exact ⟨[], ps, rfl, .nil, h⟩
  | node c children siblings _ ih =>
    rw [node_append] at h
    cases h with
    | text htext hrest =>
      obtain ⟨before, after, rfl, hbefore, hafter⟩ := ih hrest
      exact ⟨_, after, (List.append_assoc ..).symm, .text htext hbefore, hafter⟩
    | node his hchildren hrest =>
      obtain ⟨before, after, rfl, hbefore, hafter⟩ := ih hrest
      refine ⟨_, after, ?_, .node his hchildren hbefore, hafter⟩
      rw [List.cons_append, List.append_assoc]

/-- One node tells its piece, and then what its children tell. -/
theorem single {piece : Piece} {c : Content} {children : Forest Content} {ps : List Piece}
    (his : piece.Is c children) (hchildren : children.Tells ps) :
    (Forest.node c children .nil).Tells (piece :: ps) := by
  have hnode := Tells.node his hchildren .nil
  rwa [List.append_nil] at hnode

theorem singleText {c : Content} (htext : c.isText = true) :
    (Forest.node c .nil .nil).Tells (c.value.toList.map .char) := by
  have hnode := Tells.text htext .nil
  rwa [List.append_nil] at hnode

end Tells

/-- Trees given last first are the earlier ones and then the last. -/
theorem prependReversed_cons_nil (c : Content) (below : Forest Content) (earlier : List Tree) :
    prependReversed ((c, below) :: earlier) nil = prependReversed earlier nil ++ node c below nil := by
  exact prependReversed_append earlier nil (node c below nil)

end Forest

/-! ## Builders -/

namespace Builder

open Forest (prependReversed)

/-- What the trees at the top and the open elements with their children so far tell. -/
def FramesTell (top : List Tree) : List Frame → List Piece → Prop
  | [], ps => (prependReversed top .nil).Tells ps
  | frame :: outer, ps => ∃ before tag inner, ps = before ++ .element tag :: inner ∧
      FramesTell top outer before ∧
      (∀ children, (Piece.element tag).Is frame.content children) ∧
      (prependReversed frame.done .nil).Tells inner

/-- What was built so far holds these pieces and no others, in document order. -/
def Tells (b : Builder) (ps : List Piece) : Prop :=
  FramesTell b.done b.frames ps

theorem Tells.observe {b : Builder} {ps : List Piece} (h : b.Tells ps) (token : Token) :
    (b.observe token).Tells ps := by
  have hbare : b.bare.Tells ps := h
  rw [← bare_observe token] at hbare
  exact hbare

/-- What is added to the innermost children is told at the end. -/
theorem Tells.onChildren {b : Builder} {ps more : List Piece} (h : b.Tells ps)
    {change : List Tree → List Tree}
    (hchange : ∀ inner, (prependReversed b.children .nil).Tells inner →
      (prependReversed (change b.children) .nil).Tells (inner ++ more)) :
    (b.onChildren change).Tells (ps ++ more) := by
  obtain ⟨frames, done, quirks, decided⟩ := b
  cases frames with
  | nil => exact hchange ps h
  | cons frame outer =>
    obtain ⟨before, tag, inner, rfl, houter, his, hinner⟩ := h
    refine ⟨before, tag, inner ++ more, ?_, houter, his, hchange inner hinner⟩
    rw [List.append_assoc, List.cons_append]

/-- A tree that is inserted says what it does at the end. -/
theorem Tells.insert {b : Builder} {ps qs : List Piece} (h : b.Tells ps) {c : Content}
    {below : Forest Content} (htree : (Forest.node c below .nil).Tells qs) :
    (b.insert (c, below)).Tells (ps ++ qs) := by
  refine h.onChildren fun inner hinner => ?_
  rw [Forest.prependReversed_cons_nil]
  exact hinner.append htree

/-- A node without children adds its piece. -/
theorem Tells.insertLeaf {b : Builder} {ps : List Piece} (h : b.Tells ps) {piece : Piece}
    {c : Content} (his : piece.Is c .nil) : (b.insert (c, .nil)).Tells (ps ++ [piece]) :=
  h.insert (.single his .nil)

/-- A text adds its characters, as part of a text before it or of its own. -/
theorem Tells.addText {b : Builder} {ps : List Piece} (h : b.Tells ps) (value : String) :
    (b.addText value).Tells (ps ++ value.toList.map .char) := by
  refine (h.observe (.text value)).onChildren fun inner hinner => ?_
  have hleaf : (Forest.node (.leaf .text value) .nil .nil).Tells (value.toList.map .char) :=
    .singleText rfl
  cases hchildren : (b.observe (.text value)).children with
  | nil =>
    rw [hchildren] at hinner
    exact hinner.append hleaf
  | cons tree earlier =>
    obtain ⟨last, below⟩ := tree
    rw [hchildren] at hinner
    by_cases htext : last.isText = true
    · rw [Forest.prependReversed_cons_nil] at hinner
      obtain ⟨before, after, rfl, hbefore, hafter⟩ := hinner.exists_of_append
      cases hafter with
      | text _ hnil =>
        cases hnil
        rw [joinText, if_pos htext, Forest.prependReversed_cons_nil, List.append_nil,
          List.append_assoc, ← List.map_append, ← String.toList_append]
        have hgrown : Content.isText { last with value := last.value ++ value } = true := htext
        exact hbefore.append (.singleText hgrown)
      | node his _ _ =>
        rw [his.isText_eq] at htext
        cases htext
    · rw [joinText, if_neg htext, Forest.prependReversed_cons_nil]
      exact hinner.append hleaf

/-- An element that is opened says its tag at the end. -/
theorem Tells.opened {b : Builder} {ps : List Piece} (h : b.Tells ps) {tag : StartTag} {c : Content}
    (his : ∀ children, (Piece.element tag).Is c children) :
    (b.opened c).Tells (ps ++ [.element tag]) :=
  ⟨ps, tag, [], rfl, h, his, .nil⟩

/-- Ending elements adds nothing. -/
theorem Tells.close {b : Builder} {ps : List Piece} (h : b.Tells ps) (n : Nat) :
    (b.close n).Tells ps := by
  induction n generalizing b with
  | zero => exact h
  | succ n ih =>
    rw [Builder.close]
    cases hframes : b.frames with
    | nil => exact h
    | cons frame outer =>
      rw [Tells, hframes] at h
      obtain ⟨before, tag, inner, rfl, houter, his, hinner⟩ := h
      have hbefore : Tells { b with frames := outer } before := houter
      exact ih (hbefore.insert (.single (his _) hinner))

/-- **A token adds its pieces at the end.** -/
theorem Tells.effect {b b' : Builder} {ps : List Piece} {token : Token} {raw : Option String}
    (h : b.Tells ps) (heffect : b.Effect token b' raw) :
    b'.Tells (ps ++ (Event.mk token b.openTags).pieces) := by
  have hobserved := h.observe token
  cases heffect with
  | text value =>
    rw [Event.pieces_text]
    exact h.addText value
  | leaf hleaf =>
    rw [Event.pieces_of_leaf? hleaf]
    exact hobserved.insertLeaf ⟨rfl, Token.isDeclaration_of_leaf? hleaf, rfl⟩
  | leafTag tag n selfClosing hleaf => exact (hobserved.close n).insertLeaf ⟨rfl, rfl, rfl⟩
  | openTag tag n selfClosing hleaf => exact (hobserved.close n).opened fun _ => ⟨rfl, rfl, rfl⟩
  | lineBreak name hname hhtml =>
    rw [Event.pieces_lineBreak hname hhtml]
    exact hobserved.insertLeaf ⟨rfl, rfl⟩
  | endTag name n hname hends hleft =>
    rw [Event.pieces_endTag hname fun hsame => absurd hsame hends, List.append_nil]
    exact hobserved.close n
  | paragraph name hname hhtml hends =>
    rw [Event.pieces_paragraph hname hhtml hends]
    exact hobserved.insertLeaf ⟨rfl, rfl⟩
  | dropped name hbr hp hends =>
    rw [Event.pieces_endTag hbr fun _ => hp, List.append_nil]
    exact hobserved

/-- A run adds the pieces of its tokens. -/
theorem Tells.reads {b final : Builder} {ps : List Piece} {raw : Option String} {input : List Char}
    {events : List Event} (h : b.Tells ps) (hreads : Reads b raw input events final) :
    final.Tells (ps ++ events.flatMap (·.pieces)) := by
  induction hreads generalizing ps with
  | nil _ => rwa [List.flatMap_nil, List.append_nil]
  | cons _ heffect _ ih =>
    rw [List.flatMap_cons, ← List.append_assoc]
    exact ih (h.effect heffect)

/-- The trees of a builder tell what the builder does. -/
theorem Tells.forest {b : Builder} {ps : List Piece} (h : b.Tells ps) : b.forest.Tells ps := by
  have hclosed := h.close b.frames.length
  rw [Tells, frames_close_length] at hclosed
  exact hclosed

/-- **A page tells the pieces of its tokens**, in the order in which they are read. -/
theorem Reads.tells {raw : Option String} {input : List Char} {events : List Event} {b : Builder}
    (h : Reads {} raw input events b) : b.forest.Tells (events.flatMap (·.pieces)) := by
  have hempty : Tells {} [] := Forest.Tells.nil
  exact (hempty.reads h).forest

end Builder

/-! ## What is found in a forest -/

namespace Forest

/-- The elements in document order, each with its children. -/
def elements : Forest Content → List Tree
  | nil => []
  | node c children siblings =>
    (if c.isElement then [(c, children)] else []) ++ (children.elements ++ siblings.elements)

namespace Tells

variable {f : Forest Content} {ps : List Piece}

/-- The text is made of the characters. -/
theorem text_eq (h : f.Tells ps) : f.text = ps.filterMap Piece.char? := by
  induction h with
  | nil => rfl
  | @text c siblings ps htext _ ih =>
    have hchars : (c.value.toList.map Piece.char).filterMap Piece.char? = c.value.toList := by
      rw [List.filterMap_map]
      exact List.filterMap_some
    rw [text_node, if_pos htext, List.filterMap_append, hchars, ih]
    rfl
  | node his _ _ ihc ihs =>
    rw [text_node, if_neg (by simp [his.isText_eq]), ihc, ihs,
      List.filterMap_cons_none his.char?_eq, List.filterMap_append, List.nil_append]

/-- The comments and declarations are those of the pieces. -/
theorem declarations_eq (h : f.Tells ps) :
    f.toList.filter (·.isDeclaration) = ps.filterMap Piece.leaf? := by
  induction h with
  | nil => rfl
  | @text c siblings ps htext _ ih =>
    have hnone : (c.value.toList.map Piece.char).filterMap Piece.leaf? = [] := by
      simp [List.filterMap_map, Piece.leaf?]
    have hkind : c.kind = .text := by simpa [Content.isText] using htext
    have hnot : c.isDeclaration = false := by rw [Content.isDeclaration, hkind]
    rw [toList, List.filter_cons_of_neg (by simp [hnot]), List.filterMap_append, hnone, ← ih]
    rfl
  | node his _ _ ihc ihs =>
    rw [toList, List.filter_cons, List.filter_append, ihc, ihs, List.filterMap_cons, his.leaf?_eq,
      List.filterMap_append]
    split <;> rfl

/-- The elements are those of the pieces. -/
theorem elements_eq (h : f.Tells ps) :
    List.Forall₂ (fun piece tree => piece.Is tree.1 tree.2) (ps.filter (·.isElement))
      f.elements := by
  induction h with
  | nil => exact .nil
  | @text c siblings ps htext _ ih =>
    have hnone : (c.value.toList.map Piece.char).filter (·.isElement) = [] := by
      simp [List.filter_map, Piece.isElement, Function.comp_def]
    have hkind : c.kind = .text := by simpa [Content.isText] using htext
    rw [List.filter_append, hnone, List.nil_append, elements,
      if_neg (by simp [Content.isElement, hkind])]
    exact ih
  | node his _ _ ihc ihs =>
    have hrest := List.rel_append ihc ihs
    rw [elements, List.filter_cons, List.filter_append, his.isElement_eq]
    split
    · exact .cons his hrest
    · exact hrest

end Tells

end Forest

namespace Builder.Event

/-- The elements that an event says are neither characters nor leaves. -/
theorem apart_of_mem_elements {e : Event} {piece : Piece} (h : piece ∈ e.elements) :
    piece.isElement = true ∧ piece.char? = none ∧ piece.leaf? = none := by
  obtain ⟨token, outer⟩ := e
  cases token with
  | startTag tag =>
    rw [List.mem_singleton.mp h]
    exact ⟨rfl, rfl, rfl⟩
  | endTag name =>
    simp only [elements] at h
    split at h
    · cases h
    · split at h
      · rw [List.mem_singleton.mp h]
        exact ⟨rfl, rfl, rfl⟩
      · split at h
        · rw [List.mem_singleton.mp h]
          exact ⟨rfl, rfl, rfl⟩
        · cases h
  | text _ | comment _ | doctype _ | cdata _ | instruction _ => cases h

/-- The characters that an event says are those of its token. -/
theorem filterMap_char?_pieces (e : Event) : e.pieces.filterMap Piece.char? = e.token.chars := by
  have hchars : (e.token.chars.map Piece.char).filterMap Piece.char? = e.token.chars := by
    rw [List.filterMap_map]
    exact List.filterMap_some
  have hleaf : (e.token.leaf?.map Piece.leaf).toList.filterMap Piece.char? = [] := by
    cases e.token.leaf? <;> rfl
  have helements : e.elements.filterMap Piece.char? = [] :=
    List.filterMap_eq_nil_iff.mpr fun _ hmem => (apart_of_mem_elements hmem).2.1
  rw [pieces, List.filterMap_append, List.filterMap_append, hchars, hleaf, helements,
    List.append_nil, List.append_nil]

/-- The leaves that an event says are those of its token. -/
theorem filterMap_leaf?_pieces (e : Event) :
    e.pieces.filterMap Piece.leaf? = e.token.leaf?.toList := by
  have hchars : (e.token.chars.map Piece.char).filterMap Piece.leaf? = [] := by
    simp [List.filterMap_map, Piece.leaf?]
  have hleaf : (e.token.leaf?.map Piece.leaf).toList.filterMap Piece.leaf? =
      e.token.leaf?.toList := by
    cases e.token.leaf? <;> rfl
  have helements : e.elements.filterMap Piece.leaf? = [] :=
    List.filterMap_eq_nil_iff.mpr fun _ hmem => (apart_of_mem_elements hmem).2.2
  rw [pieces, List.filterMap_append, List.filterMap_append, hchars, hleaf, helements,
    List.append_nil, List.nil_append]

theorem filter_isElement_pieces (e : Event) : e.pieces.filter (·.isElement) = e.elements := by
  have hchars : (e.token.chars.map Piece.char).filter (·.isElement) = [] := by
    simp [List.filter_map, Piece.isElement, Function.comp_def]
  have hleaf : (e.token.leaf?.map Piece.leaf).toList.filter (·.isElement) = [] := by
    cases e.token.leaf? <;> rfl
  have helements : e.elements.filter (·.isElement) = e.elements :=
    List.filter_eq_self.mpr fun _ hmem => (apart_of_mem_elements hmem).1
  rw [pieces, List.filter_append, List.filter_append, hchars, hleaf, helements,
    List.nil_append, List.nil_append]

end Builder.Event

namespace Document

/-- **A page neither loses nor doubles nor reorders what its tokens say.** In document order its texts
make up the text tokens, its comments and declarations are those of the tokens, and its elements come
one by one from the start tags, and from the end tags that stand for an element: `br`, and `p` where
it ends nothing. -/
theorem parse_keeps_tokens {maxDepth : Nat} {page : String} {doc : Document}
    (h : Document.parse maxDepth page = .ok doc) :
    ∃ f, doc.tree = .ok (.node .document f .nil) ∧
      f.text = (Document.log maxDepth page).flatMap (·.token.chars) ∧
      f.toList.filter (·.isDeclaration) =
        (Document.log maxDepth page).filterMap (·.token.leaf?) ∧
      List.Forall₂ (fun piece tree => piece.Is tree.1 tree.2)
        ((Document.log maxDepth page).flatMap (·.elements)) f.elements := by
  obtain ⟨b, -, hreads, rfl⟩ := exists_reads_of_parse h
  have htells := hreads.tells
  refine ⟨b.forest, tree_ofForest b.forest, ?_, ?_, ?_⟩
  · rw [htells.text_eq, List.filterMap_flatMap]
    simp only [Builder.Event.filterMap_char?_pieces]
  · rw [htells.declarations_eq, List.filterMap_flatMap, List.filterMap_eq_flatMap_toList]
    simp only [Builder.Event.filterMap_leaf?_pieces]
  · have helements := htells.elements_eq
    rw [List.filter_flatMap] at helements
    simpa only [Builder.Event.filter_isElement_pieces] using helements

/-- A page with a text in two pieces, an end tag that is dropped, and two that stand for elements. -/
theorem parse_keeps_tokens_strayTags :
    ∃ doc, Document.parse 8 "<!--c--><i>a</u>b</br></p>" = .ok doc ∧
      ∃ f, doc.tree = .ok (.node .document f .nil) ∧ f.text = "ab".toList ∧
        f.toList.filter (·.isDeclaration) = [.leaf .comment "c"] ∧
        List.Forall₂ (fun (piece : Piece) tree => piece.Is tree.1 tree.2)
          [.element ⟨"i", .empty, false⟩, .lineBreak, .paragraph] f.elements := by
  have hread : ∃ b, Builder.run 8 {} none "<!--c--><i>a</u>b</br></p>".toList = .ok b ∧
      Builder.log 8 {} none "<!--c--><i>a</u>b</br></p>".toList =
        [⟨.comment "c", []⟩, ⟨.startTag ⟨"i", .empty, false⟩, []⟩, ⟨.text "a", ["i"]⟩,
          ⟨.endTag "u", ["i"]⟩, ⟨.text "b", ["i"]⟩, ⟨.endTag "br", ["i"]⟩, ⟨.endTag "p", ["i"]⟩] :=
    ⟨_, Builder.run_log_of_step "<i>a</u>b</br></p>".toList rfl rfl <|
      Builder.run_log_of_step "a</u>b</br></p>".toList
        (Builder.next?_bareTag "i" (by decide) _) rfl <|
      Builder.run_log_of_step "</u>b</br></p>".toList rfl rfl <|
      Builder.run_log_of_step "b</br></p>".toList rfl rfl <|
      Builder.run_log_of_step "</br></p>".toList rfl rfl <|
      Builder.run_log_of_step "</p>".toList rfl rfl <|
      Builder.run_log_of_step [] rfl rfl Builder.run_log_nil⟩
  obtain ⟨b, hrun, hlog⟩ := hread
  obtain ⟨f, htree, htext, hdeclarations, helements⟩ := parse_keeps_tokens (parse_of_run hrun)
  rw [Document.log_eq, hlog] at htext hdeclarations helements
  exact ⟨_, parse_of_run hrun, f, htree, htext, hdeclarations, helements⟩

end Document

end HtmlMinify
