import HtmlMinify.Proofs.TokenLog

/-!
# The letter case of tags

Tags are compared without ASCII case wherever they are compared: in tables, in searches through the
open elements, and with each other. So a builder that takes tokens with small tags goes through the
states that it goes through with the tags as written, with small names in their place
(`Builder.lowered`), and asks for the same raw texts.

A node that is no element keeps its name. That the open tags of such a state are the open tags in
small letters rests on only elements being open, which every token keeps (`Builder.Named`).

## Main statements

* `Open.afterStart_lower`, `Open.afterEnd_lower`: which elements stay open.
* `Builder.step_lowered`: one token.
* `Builder.takeAll_lowered`: any number of tokens.
* `Builder.run_eq_takeAll`: a page is read by taking its tokens.
* `Document.ofTokens_lowered`: the documents that come of both.
-/

namespace HtmlMinify

open Text

/-! ## Comparisons -/

namespace Text

/-- Small names stay as they are. -/
@[simp]
theorem lower_lower (name : String) : lower (lower name) = lower name := by
  simp only [lower, String.toList_ofList, List.map_map, Function.comp_def, toLower_toLower]

/-- A test of names that letter case does not matter to. -/
def IgnoresCase (test : String → Bool) : Prop :=
  ∀ name, test (lower name) = test name

/-- Looking a name up in a table ignores its letter case. -/
theorem ignoresCase_inTable (table : List String) : IgnoresCase (inTable table) := by
  intro name
  rw [inTable, inTable, lower_lower]

theorem ignoresCase_const (answer : Bool) : IgnoresCase fun _ => answer :=
  fun _ => rfl

/-- The opposite of a test that ignores letter case does so, too. -/
theorem IgnoresCase.not {test : String → Bool} (h : IgnoresCase test) :
    IgnoresCase fun name => !test name :=
  fun name => congrArg (! ·) (h name)

/-- Two tests that ignore letter case do so together. -/
theorem IgnoresCase.and {test test' : String → Bool} (h : IgnoresCase test)
    (h' : IgnoresCase test') : IgnoresCase fun name => test name && test' name :=
  fun name => congrArg₂ (· && ·) (h name) (h' name)

/-- A comparison that ignores letter case does not see whether a name was made small. -/
theorem sameIgnoringCase_lower (name other : String) :
    sameIgnoringCase (lower name) other = sameIgnoringCase name other := by
  rw [sameIgnoringCase, sameIgnoringCase, lower_lower]

/-- Comparing with a name ignores letter case. -/
theorem ignoresCase_sameIgnoringCase (other : String) : IgnoresCase (sameIgnoringCase · other) := by
  intro name
  dsimp only
  rw [sameIgnoringCase_lower]

end Text

/-! ## Open elements -/

namespace Open

variable {target stop : String → Bool}

/-- **A search finds the same place among small tags**, if neither its target nor its stop depends
on letter case. -/
theorem closeTo?_lower (htarget : IgnoresCase target) (hstop : IgnoresCase stop)
    (tags : List String) :
    closeTo? target stop (tags.map lower) = (closeTo? target stop tags).map (·.map lower) := by
  induction tags with
  | nil => rfl
  | cons tag outer ih =>
    rw [List.map_cons, closeTo?, closeTo?, htarget tag, hstop tag, ih]
    split
    · rfl
    · split <;> rfl

/-- So it leaves the same elements open. -/
theorem close_lower (htarget : IgnoresCase target) (hstop : IgnoresCase stop)
    (tags : List String) :
    close target stop (tags.map lower) = (close target stop tags).map lower := by
  rw [close, close, closeTo?_lower htarget hstop]
  cases closeTo? target stop tags <;> rfl

/-- Which elements begin foreign content does not depend on letter case. -/
theorem ignoresCase_isForeignRoot : IgnoresCase Tag.isForeignRoot := by
  intro name
  rw [Tag.isForeignRoot, Tag.isForeignRoot, ignoresCase_inTable Tag.foreignRoots]

/-- Tags are in foreign content no matter what their letter case is. -/
theorem inForeign_lower (tags : List String) : inForeign (tags.map lower) = inForeign tags := by
  have hroot : Tag.isForeignRoot ∘ lower = Tag.isForeignRoot := by
    funext tag
    rw [Function.comp_apply, ignoresCase_isForeignRoot tag]
  rw [inForeign, List.any_map, hroot, inForeign]

/-- An implied end looks for tags, and stops at tags, in whatever letter case. -/
structure ImpliedEnd.IgnoresCase (rule : ImpliedEnd) : Prop where
  target : Text.IgnoresCase rule.target
  stop : Text.IgnoresCase rule.stop

/-- What stops a search for an item does not depend on letter case. -/
theorem ignoresCase_stopsItem : IgnoresCase stopsItem :=
  (ignoresCase_inTable special).and (ignoresCase_inTable itemTransparent).not

/-- Ending the innermost element ignores letter case. -/
theorem ignoresCase_endOfInnermost (name : String) : (endOfInnermost name).IgnoresCase :=
  ⟨ignoresCase_inTable [name], ignoresCase_const true⟩

/-- So do the ends that a start tag implies by its kind. -/
theorem ignoresCase_ownImpliedEnds (name : String) :
    ∀ rule ∈ ownImpliedEnds name, rule.IgnoresCase := by
  have htable (targets stops : List String) :
      ∀ rule ∈ [(⟨inTable targets, inTable stops⟩ : ImpliedEnd)], rule.IgnoresCase :=
    List.forall_mem_singleton.mpr ⟨ignoresCase_inTable targets, ignoresCase_inTable stops⟩
  have hitem (targets : List String) :
      ∀ rule ∈ [(⟨inTable targets, stopsItem⟩ : ImpliedEnd)], rule.IgnoresCase :=
    List.forall_mem_singleton.mpr ⟨ignoresCase_inTable targets, ignoresCase_stopsItem⟩
  have hinnermost (name : String) : ∀ rule ∈ [endOfInnermost name], rule.IgnoresCase :=
    List.forall_mem_singleton.mpr (ignoresCase_endOfInnermost name)
  unfold ownImpliedEnds
  split
  iterate 3 exact hitem _
  · exact hinnermost _
  · exact List.forall_mem_cons.mpr ⟨ignoresCase_endOfInnermost _, hinnermost _⟩
  iterate 9 exact htable _ _
  · exact List.forall_mem_nil _

/-- So do all ends that a start tag implies. -/
theorem ignoresCase_impliedEnds (name : String) (quirks : Bool) :
    ∀ rule ∈ impliedEnds name quirks, rule.IgnoresCase := by
  rw [impliedEnds, List.forall_mem_append]
  refine ⟨ignoresCase_ownImpliedEnds _, ?_⟩
  split
  · exact List.forall_mem_singleton.mpr
      ⟨ignoresCase_inTable ["p"], ignoresCase_inTable buttonScope⟩
  · exact List.forall_mem_nil _

/-- A small start tag implies the same ends. -/
theorem impliedEnds_lower (name : String) (quirks : Bool) :
    impliedEnds (lower name) quirks = impliedEnds name quirks := by
  rw [impliedEnds, impliedEnds, closesParagraph, closesParagraph, lower_lower,
    ignoresCase_inTable Tag.paragraphClosers name, sameIgnoringCase_lower]

/-- Raw text is expected inside the same elements, whatever their letter case. -/
theorem rawIn_lower (tags : List String) : rawIn (tags.map lower) = rawIn tags := by
  have hraw (tag : String) : Tag.isRawText (lower tag) = Tag.isRawText tag := by
    rw [Tag.isRawText, Tag.isRawText, ignoresCase_inTable Tag.rawTextElements]
  rw [rawIn, rawIn, inForeign_lower]
  cases tags with
  | nil => rfl
  | cons tag outer => simp only [List.map_cons, List.head?_cons, Option.any_some, hraw]

/-- **A start tag ends the same elements**, whatever the letter case of its name and of theirs. -/
theorem afterStart_lower (name : String) (quirks : Bool) (tags : List String) :
    afterStart (lower name) quirks (tags.map lower) = (afterStart name quirks tags).map lower := by
  have hrules := ignoresCase_impliedEnds name quirks
  rw [afterStart, afterStart, ignoresCase_isForeignRoot name, inForeign_lower, impliedEnds_lower,
    foldl_close_comm (List.map lower) fun rule hrule =>
      close_lower (hrules rule hrule).target (hrules rule hrule).stop]
  split <;> rfl

/-- The end tag of an option group ends it, and an option in it, in whatever letter case. -/
theorem afterHtmlEnd_optgroup_lower (tags : List String) :
    afterHtmlEnd "optgroup" (tags.map lower) = (afterHtmlEnd "optgroup" tags).map lower := by
  match tags with
  | [] => rfl
  | [inner] =>
    simp only [afterHtmlEnd, List.map_cons, List.map_nil, sameIgnoringCase_lower]
    split <;> rfl
  | inner :: outer :: rest =>
    simp only [afterHtmlEnd, List.map_cons, sameIgnoringCase_lower]
    split
    · rfl
    · split <;> rfl

/-- An end tag of HTML content leaves the same elements open among small tags. -/
theorem afterHtmlEnd_lower (name : String) (tags : List String) :
    afterHtmlEnd name (tags.map lower) = (afterHtmlEnd name tags).map lower := by
  by_cases hgroup : name = "optgroup"
  · rw [hgroup, afterHtmlEnd_optgroup_lower]
  · obtain ⟨targets, stops, hsearch⟩ := exists_endSearch hgroup
    have hstop : IgnoresCase (stops ∘ lower) := fun tag => congrArg stops (lower_lower tag)
    rw [hsearch.eq_close, hsearch.eq_close, close_lower (ignoresCase_inTable targets) hstop]

/-- An end tag in foreign content leaves the same elements open among small tags. -/
theorem closeForeign?_lower (name : String) (tags : List String) :
    closeForeign? name (tags.map lower) = (closeForeign? name tags).map (·.map lower) := by
  rw [closeForeign?, closeForeign?, inForeign_lower,
    closeTo?_lower (ignoresCase_sameIgnoringCase name) ignoresCase_isForeignRoot]
  split <;> rfl

/-- **An end tag ends the same elements**, whatever the letter case of its name and of theirs. -/
theorem afterEnd_lower (name : String) (tags : List String) :
    afterEnd (lower name) (tags.map lower) = (afterEnd name tags).map lower := by
  rw [afterEnd_congr (lower_lower name), afterEnd, afterEnd, closeForeign?_lower,
    afterHtmlEnd_lower]
  split
  · rfl
  · cases closeForeign? name tags <;> rfl

end Open

/-! ## Small tags -/

/-- The content with its tag in small letters, if it is that of an element. -/
def Content.lowered (c : Content) : Content :=
  if c.isElement then { c with name := lower c.name } else c

/-- The start tag with its name in small letters. Attributes stay as they are. -/
def StartTag.lowered (tag : StartTag) : StartTag :=
  { tag with name := lower tag.name }

/-- The token with its name in small letters, if it is a tag. -/
def Token.lowered : Token → Token
  | .startTag tag => .startTag tag.lowered
  | .endTag name => .endTag (lower name)
  | .text value => .text value
  | .comment value => .comment value
  | .doctype value => .doctype value
  | .cdata value => .cdata value
  | .instruction value => .instruction value

/-- The tree with all its tags in small letters. -/
def Tree.lowered (tree : Tree) : Tree :=
  (tree.1.lowered, tree.2.map Content.lowered)

/-- The node with its tag in small letters, if it is an element. Its links stay as they are. -/
def Node.lowered (node : Node) : Node :=
  { node with toContent := node.toContent.lowered }

/-- The document with all its tags in small letters. -/
def Document.lowered (doc : Document) : Document :=
  { doc with nodes := doc.nodes.map Node.lowered }

namespace Content

/-- A small tag does not change the kind of a node. -/
theorem kind_lowered (c : Content) : c.lowered.kind = c.kind := by
  unfold lowered
  split <;> rfl

theorem isText_lowered (c : Content) : c.lowered.isText = c.isText := by
  rw [isText, isText, kind_lowered]

/-- A text has no tag, so it stays as it is. -/
theorem lowered_of_isText {c : Content} (h : c.isText = true) : c.lowered = c := by
  rw [isText, decide_eq_true_eq] at h
  rw [lowered, isElement, h]
  rfl

/-- An element with a small tag takes content if it did before. -/
theorem isLeafElement_lowered (c : Content) : c.lowered.isLeafElement = c.isLeafElement := by
  unfold lowered
  split
  · rw [isLeafElement, isLeafElement, Tag.isVoid, ignoresCase_inTable Tag.voidElements, Tag.isVoid]
  · rfl

end Content

namespace Forest

variable {α β : Type} (change : α → β)

/-- Relabelling a forest does not change its size. -/
theorem size_map (f : Forest α) : (f.map change).size = f.size := by
  induction f with
  | nil => rfl
  | node label children siblings ihchildren ihsiblings =>
    rw [map, size, size, ihchildren, ihsiblings]

/-- Relabelled roots have the same ids. -/
theorem rootIds_map (start : NodeId) (f : Forest α) :
    (f.map change).rootIds start = f.rootIds start := by
  induction f generalizing start with
  | nil => rfl
  | node label children siblings _ ih => rw [map, rootIds, rootIds, size_map, ih]

/-- Relabelling goes through trees in front of a forest one by one. -/
theorem map_prependReversed (earlier : List (α × Forest α)) (after : Forest α) :
    (prependReversed earlier after).map change =
      prependReversed (earlier.map (Prod.map change (map change))) (after.map change) := by
  induction earlier generalizing after with
  | nil => rfl
  | cons tree earlier ih =>
    rw [prependReversed, ih, List.map_cons]
    rfl

/-- A forest with small tags is laid out as before, with small tags. -/
theorem layout_lowered (parent : Option NodeId) (start : NodeId) (f : Forest Content) :
    (f.map Content.lowered).layout parent start =
      (f.layout parent start).map Node.lowered := by
  induction f generalizing parent start with
  | nil => rfl
  | node c children siblings ihchildren ihsiblings =>
    rw [map, layout, layout, List.map_cons, List.map_append, rootIds_map, size_map, ihchildren,
      ihsiblings, Node.lowered]

end Forest

/-- **The document of a forest with small tags is its document with small tags.** -/
theorem Document.ofForest_lowered (f : Forest Content) :
    ofForest (f.map Content.lowered) = (ofForest f).lowered := by
  have hlayout := Forest.layout_lowered none 0 (.node .document f .nil)
  have hroot : (Forest.node Content.document f .nil).map Content.lowered =
      .node .document (f.map Content.lowered) .nil := rfl
  rw [hroot] at hlayout
  rw [ofForest, hlayout, ofForest, lowered, List.map_toArray]

/-! ## Builders -/

/-- The open element with its tag and those inside it in small letters. -/
def Frame.lowered (frame : Frame) : Frame :=
  ⟨frame.content.lowered, frame.done.map Tree.lowered⟩

namespace Builder

/-- The builder with all tags in small letters. -/
def lowered (b : Builder) : Builder :=
  { b with frames := b.frames.map Frame.lowered, done := b.done.map Tree.lowered }

/-- A change of children that goes together with small tags does so in a builder. -/
theorem lowered_onChildren {change change' : List Tree → List Tree}
    (h : ∀ trees, (change trees).map Tree.lowered = change' (trees.map Tree.lowered))
    (b : Builder) : (b.onChildren change).lowered = b.lowered.onChildren change' := by
  obtain ⟨frames, done, quirks, decided⟩ := b
  cases frames with
  | nil => simp only [onChildren, lowered, h, List.map_nil]
  | cons frame outer => simp only [onChildren, lowered, Frame.lowered, h, List.map_cons]

/-- Inserting a tree goes together with small tags. -/
theorem lowered_insert (tree : Tree) (b : Builder) :
    (b.insert tree).lowered = b.lowered.insert tree.lowered := by
  rw [insert, insert]
  exact lowered_onChildren (fun _ => List.map_cons) b

/-- Texts are joined as before. -/
theorem joinText_lowered (value : String) (trees : List Tree) :
    (joinText value trees).map Tree.lowered = joinText value (trees.map Tree.lowered) := by
  match trees with
  | [] => rfl
  | (last, below) :: earlier =>
    rw [List.map_cons, Tree.lowered, joinText, joinText, last.isText_lowered]
    split
    · next htext =>
      have hlast : Content.isText { last with value := last.value ++ value } = true := htext
      rw [List.map_cons, Tree.lowered, Content.lowered_of_isText hlast,
        Content.lowered_of_isText htext]
    · rfl

/-- Ending elements goes together with small tags. -/
theorem lowered_close (n : Nat) (b : Builder) : (b.close n).lowered = b.lowered.close n := by
  induction n generalizing b with
  | zero => rfl
  | succ n ih =>
    obtain ⟨frames, done, quirks, decided⟩ := b
    cases frames with
    | nil => rfl
    | cons frame outer =>
      rw [close, ih, lowered_insert, Tree.lowered, Forest.map_prependReversed]
      rfl

/-- Ending elements down to given ones goes together with small tags. -/
theorem lowered_closeTo (left : List String) (b : Builder) :
    (b.closeTo left).lowered = b.lowered.closeTo (left.map lower) := by
  rw [closeTo, lowered_close, closeTo, List.length_map]
  simp only [lowered, List.length_map]

/-- Small tags say the same about quirks mode. -/
theorem lowered_observe (token : Token) (b : Builder) :
    (b.observe token).lowered = b.lowered.observe token.lowered := by
  cases token with
  | text value =>
    simp only [observe, Token.lowered]
    split <;> rfl
  | doctype value =>
    have hdecided : b.lowered.decided = b.decided := rfl
    simp only [observe, Token.lowered, hdecided]
    by_cases h : b.decided = true
    · rw [if_pos h, if_pos h]
    · rw [if_neg h, if_neg h, lowered, lowered]
  | startTag tag => rfl
  | endTag name => rfl
  | comment value => rfl
  | cdata value => rfl
  | instruction value => rfl

/-- The trees at the end are those with small tags. -/
theorem lowered_forest (b : Builder) : b.lowered.forest = b.forest.map Content.lowered := by
  have hlength : b.lowered.frames.length = b.frames.length := List.length_map _
  rw [forest, hlength, ← lowered_close, forest, Forest.map_prependReversed]
  rfl

/-! ## One token -/

/-- The open tags are tags of elements: in small letters, they are the open tags of the builder with
small tags. -/
def Named (b : Builder) : Prop :=
  b.lowered.openTags = b.openTags.map lower

namespace Named

variable {b : Builder}

theorem empty : Named {} := rfl

/-- Changing children leaves open elements named. -/
theorem onChildren {change change' : List Tree → List Tree} (h : b.Named)
    (hchange : ∀ trees, (change trees).map Tree.lowered = change' (trees.map Tree.lowered)) :
    (b.onChildren change).Named := by
  rw [Named, lowered_onChildren hchange, openTags_onChildren, h, openTags_onChildren]

theorem insert (h : b.Named) (tree : Tree) : (b.insert tree).Named :=
  h.onChildren fun _ => rfl

theorem close (h : b.Named) (n : Nat) : (b.close n).Named := by
  rw [Named, lowered_close, openTags_close, h, openTags_close, List.map_drop]

theorem observe (h : b.Named) (token : Token) : (b.observe token).Named := by
  rw [Named, lowered_observe, openTags_observe, h, openTags_observe]

/-- An element that is opened is named, for it comes from a tag. -/
theorem opened (h : b.Named) (name : String) (attributes : Attributes) (selfClosing : Bool) :
    (b.opened (.element name attributes selfClosing)).Named :=
  congrArg (lower name :: ·) h

/-- Only elements are ever opened. -/
theorem effect {token : Token} {b' : Builder} {raw : Option String} (h : b.Named)
    (heffect : b.Effect token b' raw) : b'.Named := by
  cases heffect with
  | text value => exact (h.observe _).onChildren (joinText_lowered value)
  | leaf => exact (h.observe _).insert _
  | leafTag => exact ((h.observe _).close _).insert _
  | openTag => exact ((h.observe _).close _).opened _ _ _
  | lineBreak => exact (h.observe _).insert _
  | endTag => exact (h.observe _).close _
  | paragraph => exact (h.observe _).insert _
  | dropped => exact h.observe _

end Named

variable {b : Builder}

/-- A small start tag does to small tags what the start tag did, small. -/
theorem start_lowered (h : b.Named) (maxDepth : Nat) (tag : StartTag) :
    b.lowered.start maxDepth tag.lowered =
      (b.start maxDepth tag).map (Prod.map lowered (Option.map lower)) := by
  obtain ⟨pending, hopen⟩ := Open.afterStart_suffix tag.name b.quirks b.openTags
  set outer := Open.afterStart tag.name b.quirks b.openTags with houter
  have hafter : Open.afterStart tag.name b.quirks (pending ++ outer) = outer := by
    rw [hopen, houter]
  have hopen' : b.lowered.openTags = pending.map lower ++ outer.map lower := by
    rw [h, ← hopen, List.map_append]
  have hafter' : Open.afterStart tag.lowered.name b.lowered.quirks
      (pending.map lower ++ outer.map lower) = outer.map lower := by
    rw [← List.map_append]
    exact (Open.afterStart_lower tag.name b.quirks _).trans (congrArg _ hafter)
  have hforeign : Open.inForeign (tag.lowered.name :: outer.map lower) =
      Open.inForeign (tag.name :: outer) := Open.inForeign_lower (tag.name :: outer)
  have hraw : rawIn (tag.lowered.name :: outer.map lower) = rawIn (tag.name :: outer) :=
    Open.rawIn_lower (tag.name :: outer)
  set c := Content.element tag.name tag.attributes
    (Open.inForeign (tag.name :: outer) && tag.selfClosing) with hc
  have hlowered : Content.element tag.lowered.name tag.lowered.attributes
      (Open.inForeign (tag.name :: outer) && tag.lowered.selfClosing) = c.lowered := rfl
  rw [start_of_afterStart hopen' hafter', start_of_afterStart hopen.symm hafter]
  simp only [hforeign, hraw, List.length_map, ← lowered_close, hlowered, c.isLeafElement_lowered,
    ← hc]
  split
  · exact congrArg (fun b => Except.ok (b, none)) (lowered_insert (c, .nil) _).symm
  · split
    · rfl
    · refine congrArg (fun raw => Except.ok (_, raw)) ?_
      split <;> rfl

/-- So does a small end tag. -/
theorem finish_lowered (h : b.Named) (maxDepth : Nat) (name : String) :
    b.lowered.finish maxDepth (lower name) = (b.finish maxDepth name).map lowered := by
  have hinserted (tag : String) : b.lowered.insert (.element (lower tag) .empty false, .nil) =
      (b.insert (.element tag .empty false, .nil)).lowered :=
    (lowered_insert (.element tag .empty false, .nil) b).symm
  rw [finish_congr (lower_lower name)]
  unfold finish
  rw [h, Open.inForeign_lower, Open.afterEnd_congr (lower_lower name).symm, Open.afterEnd_lower]
  simp only [List.length_map, ← lowered_closeTo, start_br]
  split
  · exact congrArg Except.ok (hinserted "br")
  · split
    · rfl
    · split
      · exact congrArg Except.ok (hinserted "p")
      · rfl

/-- **A token does the same with a small tag**: it is refused with the same error, or leaves the same
builder with small tags, and asks for the raw text of a small tag. -/
theorem step_lowered (h : b.Named) (maxDepth : Nat) (token : Token) :
    b.lowered.step maxDepth token.lowered =
      (b.step maxDepth token).map (Prod.map lowered (Option.map lower)) := by
  have hleaf (c : Content) (hc : c.lowered = c) :
      (.ok ((b.observe token).lowered.insert (c, .nil), none) :
          Except DocumentError (Builder × Option String)) =
        .ok (((b.observe token).insert (c, .nil)).lowered, none) := by
    rw [lowered_insert, Tree.lowered, hc]
    rfl
  unfold step
  rw [← lowered_observe]
  cases token with
  | text value =>
    exact congrArg (fun b => Except.ok (b, none))
      (lowered_onChildren (joinText_lowered value) _).symm
  | comment value => exact hleaf (.leaf .comment value) rfl
  | doctype value => exact hleaf (.leaf .doctype value) rfl
  | cdata value => exact hleaf (.leaf .cdata value) rfl
  | instruction value => exact hleaf (.leaf .instruction value) rfl
  | startTag tag => exact start_lowered (h.observe _) maxDepth tag
  | endTag name =>
    simp only [Token.lowered]
    rw [finish_lowered (h.observe _) maxDepth name]
    cases (b.observe (.endTag name)).finish maxDepth name <;> rfl

/-! ## Any number of tokens -/

/-- Takes tokens one after the other, up to one that is refused: the raw text that is asked for
after each, and the builder after all. -/
def takeAll (maxDepth : Nat) : List Token → Builder →
    List (Option String) × Except DocumentError Builder
  | [], b => ([], .ok b)
  | token :: tokens, b =>
    match b.step maxDepth token with
    | .error e => ([], .error e)
    | .ok (b', raw) => (raw :: (takeAll maxDepth tokens b').1, (takeAll maxDepth tokens b').2)

/-- A run takes the tokens of its log. -/
theorem run_eq_takeAll (maxDepth : Nat) (b : Builder) (raw : Option String) (input : List Char) :
    run maxDepth b raw input =
      (takeAll maxDepth ((log maxDepth b raw input).map (·.token)) b).2 := by
  fun_induction log maxDepth b raw input with
  | case1 b raw input hnext =>
    rw [run_of_next?_none hnext]
    rfl
  | case2 b raw input token rest hnext ih =>
    cases hstep : b.step maxDepth token with
    | error e =>
      rw [run_of_error hnext hstep, List.map_cons, takeAll, hstep]
    | ok taken =>
      rw [run_of_step hnext hstep, List.map_cons, takeAll, hstep]
      exact ih _ _

/-- **Any number of tokens do the same with small tags.** -/
theorem takeAll_lowered (maxDepth : Nat) (tokens : List Token) (h : b.Named) :
    takeAll maxDepth (tokens.map Token.lowered) b.lowered =
      Prod.map (List.map (Option.map lower)) (Except.map lowered) (takeAll maxDepth tokens b) := by
  induction tokens generalizing b with
  | nil => rfl
  | cons token tokens ih =>
    rw [List.map_cons, takeAll, takeAll, step_lowered h]
    cases hstep : b.step maxDepth token with
    | error e => rfl
    | ok taken =>
      obtain ⟨b', raw⟩ := taken
      simp only [Except.map, Prod.map, ih (h.effect (effect_of_step hstep)), List.map_cons]

end Builder

namespace Draft

/-- Takes tokens one after the other, up to one that is refused: the raw text that is asked for
after each, and the draft after all. -/
def takeAll (maxDepth : Nat) : List Token → Draft →
    List (Option String) × Except DocumentError Draft
  | [], d => ([], .ok d)
  | token :: tokens, d =>
    match d.step maxDepth token with
    | .error e => ([], .error e)
    | .ok (d', raw) => (raw :: (takeAll maxDepth tokens d').1, (takeAll maxDepth tokens d').2)

/-- Any number of tokens make of the draft what they make of the builder. -/
theorem Shows.takeAll {d : Draft} {b : Builder} (h : d.Shows b) (maxDepth : Nat)
    (tokens : List Token) :
    (d.takeAll maxDepth tokens).1 = (b.takeAll maxDepth tokens).1 ∧
      Agree Shows (d.takeAll maxDepth tokens).2 (b.takeAll maxDepth tokens).2 := by
  induction tokens generalizing d b with
  | nil => exact ⟨rfl, .ok h⟩
  | cons token tokens ih =>
    have hagree := h.step maxDepth token
    rw [Draft.takeAll, Builder.takeAll]
    generalize d.step maxDepth token = taken at hagree ⊢
    generalize b.step maxDepth token = taken' at hagree ⊢
    cases hagree with
    | error e => exact ⟨rfl, .error e⟩
    | @ok next next' hshows =>
      obtain ⟨hnext, hraw⟩ := hshows
      obtain ⟨hraws, hdrafts⟩ := ih hnext
      exact ⟨congrArg₂ List.cons hraw hraws, hdrafts⟩

end Draft

namespace Document

/-- What comes of tokens that are taken one after the other by a new draft: the raw text that is
asked for after each, and the document, or the error at which it ends. -/
def ofTokens (maxDepth : Nat) (tokens : List Token) :
    List (Option String) × Except DocumentError Document :=
  let taken := Draft.takeAll maxDepth tokens {}
  (taken.1, taken.2.map (·.doc))

/-- What comes of tokens is what a builder makes of them, laid out. -/
theorem ofTokens_eq (maxDepth : Nat) (tokens : List Token) :
    ofTokens maxDepth tokens =
      Prod.map id (Except.map (ofForest ·.forest)) (Builder.takeAll maxDepth tokens {}) := by
  obtain ⟨hraws, hagree⟩ := Draft.Shows.new.takeAll maxDepth tokens
  refine Prod.ext hraws ?_
  change Except.map (·.doc) (Draft.takeAll maxDepth tokens {}).2 =
    Except.map (ofForest ·.forest) (Builder.takeAll maxDepth tokens {}).2
  generalize (Draft.takeAll maxDepth tokens {}).2 = drafted at hagree ⊢
  generalize (Builder.takeAll maxDepth tokens {}).2 = built at hagree ⊢
  cases hagree with
  | error e => rfl
  | @ok d b hshows => exact congrArg Except.ok (hshows.doc_eq.trans b.document_eq)

/-- The document of a page is that of its tokens. -/
theorem parse_eq_ofTokens (maxDepth : Nat) (page : String) :
    parse maxDepth page = (ofTokens maxDepth ((log maxDepth page).map (·.token))).2 := by
  rw [parse_eq_map, Forest.parse, Builder.run_eq_takeAll, ofTokens_eq, log_eq, Prod.map_snd]
  cases (Builder.takeAll maxDepth
    ((Builder.log maxDepth {} none page.toList).map (·.token)) {}).2 <;> rfl

/-- **The letter case of tags has no part in the tree.** Whatever the tokens and the depth allowed,
with small tags the error is the same, or the document is the same with small tags for its elements;
and after each token the same raw text is asked for, by a small tag. -/
theorem ofTokens_lowered (maxDepth : Nat) (tokens : List Token) :
    (ofTokens maxDepth (tokens.map Token.lowered)).2 =
        (ofTokens maxDepth tokens).2.map lowered ∧
      (ofTokens maxDepth (tokens.map Token.lowered)).1 =
        (ofTokens maxDepth tokens).1.map (Option.map lower) := by
  have htaken := Builder.takeAll_lowered maxDepth tokens Builder.Named.empty
  have hempty : Builder.lowered {} = {} := rfl
  rw [hempty] at htaken
  simp only [ofTokens_eq, htaken, Prod.map_fst, Prod.map_snd, id_eq, and_true]
  cases (Builder.takeAll maxDepth tokens {}).2 with
  | error e => rfl
  | ok b =>
    have hforest : ofForest b.lowered.forest = (ofForest b.forest).lowered := by
      rw [b.lowered_forest, ofForest_lowered]
    exact congrArg Except.ok hforest

end Document

end HtmlMinify
