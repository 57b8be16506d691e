import HtmlMinify.Proofs.ImpliedEnds
import HtmlMinify.Proofs.RawElements
import HtmlMinify.Proofs.Rereading
import HtmlMinify.Proofs.Skeleton

/-!
# Minifying twice

A page that was minified is minified again to itself if what was written reads as something that is
written in the same way. Passes do their part: they rest on what they leave, and on what is read of it.
Whether it reads so is up to the tree of the page, and passes do not change it. The tree has to be
legible: its raw texts can be told from the end tags after them, its attributes from each other and from
the quotes around their values, and its elements from those around them. How the page spelled this tree
does not matter, so it may be as broken as it likes.

Not every tree is legible. Nothing ends the text of a `plaintext` element, so its end tag is read as
text, and each time the page is minified it gets one more.

## Main statements

* `Forest.Fit`: trees that are read back however they are written.
* `Document.Step.fit`, `Document.Leads.fit`: passes leave them so.
* `Forest.Legible.fit`: a legible tree that was read is one of them.
* `Settings.minify_minify`: minifying twice is minifying once.
* `Settings.minify_plaintext`: a page of which this is not true.
-/

namespace HtmlMinify

open Text Siblings

/-! ## Quirks mode -/

/-- Tidying texts does not change the mode of a page. -/
theorem Comments.Tidies.pageQuirks_eq {l l' : List Content} (h : Tidies l l') :
    Doctype.pageQuirks l' = Doctype.pageQuirks l := by
  induction h with
  | nil => rfl
  | stay _ halike hvalue _ ih =>
    rw [Doctype.pageQuirks, Doctype.pageQuirks, halike.kind, hvalue, ih]
  | change htext htext' hblank _ _ _ ih =>
    rw [Content.isText, decide_eq_true_eq] at htext htext'
    rw [Doctype.pageQuirks, Doctype.pageQuirks, htext, htext', hblank, ih]
  | drop htext hblank _ ih =>
    rw [Content.isText, decide_eq_true_eq] at htext
    rw [Doctype.pageQuirks, htext, hblank, ih]
    rfl

/-- Comments do not count for the mode of a page. -/
theorem Comments.pageQuirks_kept (openReference : Bool) (l : List Content) :
    Doctype.pageQuirks (kept openReference l) = Doctype.pageQuirks l := by
  induction l generalizing openReference with
  | nil => rfl
  | cons c l ih =>
    have hstays : ∀ b, Doctype.pageQuirks (c :: kept b l) = Doctype.pageQuirks (c :: l) := by
      intro b
      rw [Doctype.pageQuirks, Doctype.pageQuirks, ih]
    rw [kept]
    split
    · exact hstays _
    · split
      · exact hstays _
      · split
        · exact hstays _
        · next hremovable _ =>
          rw [Bool.not_eq_true', Bool.not_eq_false, isRemovable, Bool.and_eq_true,
            decide_eq_true_eq] at hremovable
          rw [ih, Doctype.pageQuirks, hremovable.1]

namespace Siblings

/-- Blank texts leave the mode open, and others make it quirks. -/
theorem pageQuirks_text {c : Content} (h : c.isText = true) (l : List Content) :
    Doctype.pageQuirks (c :: l) = if isBlank c.value then Doctype.pageQuirks l else true := by
  rw [Content.isText, decide_eq_true_eq] at h
  rw [Doctype.pageQuirks, h]

/-- Joining texts does not change the mode of a page. -/
theorem pageQuirks_join {open? : Option Content} (hopen : ∀ t ∈ open?, t.isText = true)
    (l : List Content) :
    Doctype.pageQuirks (join open? l) = Doctype.pageQuirks (open?.toList ++ l) := by
  -- The open text stands first on both sides, so it is enough to compare what is behind it.
  have hbehind : ∀ {l l' : List Content}, Doctype.pageQuirks l = Doctype.pageQuirks l' →
      ∀ {open? : Option Content}, (∀ t ∈ open?, t.isText = true) →
        Doctype.pageQuirks (open?.toList ++ l) = Doctype.pageQuirks (open?.toList ++ l') := by
    intro l l' heq open? hopen
    cases open? with
    | none => exact heq
    | some t =>
      rw [Option.toList_some, List.singleton_append, List.singleton_append,
        pageQuirks_text (hopen t rfl), pageQuirks_text (hopen t rfl), heq]
  induction l generalizing open? with
  | nil => rw [join, List.append_nil]
  | cons c l ih =>
    rw [join]
    cases hc : c.isText with
    | false =>
      refine hbehind ?_ hopen
      rw [Doctype.pageQuirks, Doctype.pageQuirks, ih (by simp), Option.toList_none, List.nil_append]
    | true =>
      rw [Bool.not_true, if_neg Bool.false_ne_true]
      cases hvalue : c.value.isEmpty with
      | true =>
        have hblank : isBlank c.value = true := by
          rw [String.isEmpty_iff.mp hvalue]
          rfl
        rw [if_pos rfl, ih hopen]
        refine hbehind ?_ hopen
        rw [pageQuirks_text hc, if_pos hblank]
      | false =>
        rw [if_neg Bool.false_ne_true, ih fun t ht => (Option.some.inj ht) ▸ isText_joinTo hopen hc,
          Option.toList_some, List.singleton_append, pageQuirks_text (isText_joinTo hopen hc)]
        cases open? with
        | none =>
          rw [Option.toList_none, List.nil_append, pageQuirks_text hc]
          rfl
        | some t =>
          rw [Option.toList_some, List.singleton_append, pageQuirks_text (hopen t rfl),
            pageQuirks_text hc, joinTo, Builder.isBlank_append]
          cases isBlank t.value <;> rfl

end Siblings

namespace Document

open Pass

/-- No work changes the mode of a page. -/
theorem Makes.pageQuirks_eq {w : Work} {fam fam' : Family} (h : Makes w fam fam')
    (htidy : fam.Tidy) :
    Doctype.pageQuirks fam'.contents = Doctype.pageQuirks fam.contents := by
  have hothers : w ≠ .comments →
      Doctype.pageQuirks fam'.contents = Doctype.pageQuirks fam.contents :=
    fun hw => (h.tidies htidy hw).pageQuirks_eq
  cases w with
  | comments =>
    rw [h.contents_eq, pageQuirks_join (by simp)]
    exact Comments.pageQuirks_kept false fam.contents
  | _ => exact hothers (by simp)

end Document

/-! ## What passes leave can be written -/

/-- Without comments there is nothing to remove. -/
theorem Comments.kept_of_texts {l : List Content} (h : ∀ c ∈ l, c.isText = true)
    (openReference : Bool) : kept openReference l = l := by
  induction l generalizing openReference with
  | nil => rfl
  | cons c l ih =>
    rw [kept, if_pos (h c List.mem_cons_self), ih fun d hd => h d (List.mem_cons_of_mem _ hd)]

/-- Where text counts as written and nothing else is, nothing changes. -/
theorem Pass.Work.join_left_of_texts (w : Pass.Work) {fam : Family} (htidy : fam.Tidy)
    (hfree : fam.free = false) (htexts : ∀ c ∈ fam.contents, c.isText = true) :
    join none (w.left fam) = fam.contents := by
  have hsame : w.left fam = fam.contents := by
    have hnot : ¬ fam.free = true := by simp [hfree]
    cases w with
    | comments => exact Comments.kept_of_texts htexts false
    | collapse => exact if_neg hnot
    | trim => exact if_neg hnot
    | blanks => exact if_neg hnot
    | rule r =>
      exact (List.map_congr_left fun c hc => Document.ruled_of_isText (htexts c hc)).trans
        (List.map_id _)
    | nothing => rfl
  rw [hsame, join_of_joined htidy.joined]

/-- A node that is edited can stand in markup, if it is no empty text. -/
theorem Content.Spelled.edited {sorts : Bool} {c c' : Content} (h : c.Spelled)
    (hedited : c.Edited sorts c') (hfilled : c'.isText = true → c'.value.isEmpty = false) :
    c'.Spelled := by
  have hsame : c.isText = false → c'.value = c.value := hedited.value
  rw [Spelled, hedited.kind]
  rw [Spelled] at h
  cases hkind : c.kind with
  | document =>
    rw [hkind] at h
    exact h.elim
  | element =>
    rw [hkind] at h
    obtain ⟨hname, hnames, hkeys⟩ := h
    refine ⟨by rwa [hedited.name], fun a' ha' => ?_,
      Document.distinct_of_pared hkeys hedited.attributes⟩
    obtain ⟨a, ha, hsame, -⟩ := hedited.attributes.comes a' ha'
    rw [hsame]
    exact hnames a ha
  | text =>
    have htext : c'.isText = true := by
      rw [isText, hedited.kind, hkind]
      rfl
    intro hempty
    rw [hempty] at hfilled
    cases hfilled htext
  | _ =>
    rw [hkind] at h
    rw [SpelledAs, hsame (by rw [isText, hkind]; rfl)]
    exact h

/-- Attributes that are faithful can be told apart. -/
theorem Content.Faithful.separate {c : Content} (h : c.Faithful) (helement : c.isElement = true)
    (options : WriteOptions) : c.attributes.Separate options := by
  refine (List.pairwise_of_forall_mem_list fun a _ b hb _ => ?_).isChain
  exact (h.clean helement b hb).name

namespace Forest

variable {options : WriteOptions} {sorts free : Bool}
  {Left : Family → List (NodeId × Content) → Prop} {f f' : NumberedForest} {outer : List String}

/-- A faithful forest can be written with and without quotes. -/
theorem Spelled.of_faithful {f : Forest Content} (h : f.Spelled {} outer)
    (hfaithful : ∀ c ∈ f.toList, c.Faithful) (options : WriteOptions) :
    f.Spelled options outer := by
  induction f generalizing outer with
  | nil => trivial
  | node c children siblings ihc ihs =>
    obtain ⟨hnode, hchildren, hsiblings⟩ := h
    have hseparate := (hfaithful c List.mem_cons_self).separate
    exact ⟨{ hnode with separate := fun helement => hseparate helement options },
      ihc hchildren fun d hd => hfaithful d (mem_of_mem_below hd),
      ihs hsiblings fun d hd => hfaithful d (mem_of_mem_beside hd)⟩

/-- Nothing comes from nothing. -/
theorem Becomes.eq_nil (h : Becomes sorts Left free Forest.nil f') : f' = Forest.nil := by
  cases h
  rfl

/-- Raw text that keeps its content is left as it is. -/
theorem Becomes.contents_eq_of_rawBelow {tag : String} (h : f.Becomes sorts Left free f')
    (hraw : f.contents.RawBelow tag) (hroots : f'.roots.map (·.2) = f.roots.map (·.2)) :
    f'.contents = f.contents := by
  cases f with
  | nil => rw [h.eq_nil]
  | node label below after =>
    obtain ⟨-, -, hbelow, hafter⟩ := hraw
    obtain rfl := contents_eq_nil_iff.mp hbelow
    obtain rfl := contents_eq_nil_iff.mp hafter
    cases h with
    | drop _ hdrop =>
      rw [hdrop.eq_nil] at hroots
      cases hroots
    | keep _ _ hchildren hsiblings =>
      rw [hchildren.eq_nil, hsiblings.eq_nil] at hroots ⊢
      rw [contents_node, contents_node]
      exact congrArg (node · _ _) (List.cons.inj hroots).1

/-- Below a raw text element there are only texts. -/
theorem isText_of_rawBelow {tag : String} (hraw : f.contents.RawBelow tag) :
    ∀ c ∈ f.roots.map (·.2), c.isText = true := by
  cases f with
  | nil => exact fun _ hc => nomatch hc
  | node label below after =>
    obtain ⟨hkind, -, -, hafter⟩ := hraw
    obtain rfl := contents_eq_nil_iff.mp hafter
    intro c hc
    obtain rfl := List.mem_singleton.mp hc
    rw [Content.isText, hkind]
    rfl

/-- **What passes leave can be written**: texts are joined again, and raw text stays. -/
theorem Becomes.spelled (h : f.Becomes sorts Left free f')
    (hleft : ∀ fam ∈ f.families free, ∀ left, Left fam left → Joined (left.map (·.2)) ∧
      (fam.free = false → (∀ c ∈ fam.contents, c.isText = true) →
        left.map (·.2) = fam.contents))
    (hroots : Joined (f'.roots.map (·.2))) (hfaithful : ∀ c ∈ f'.contents.toList, c.Faithful)
    (hspelled : f.contents.Spelled options outer) : f'.contents.Spelled options outer := by
  induction h generalizing outer with
  | nil => trivial
  | drop _ _ ih =>
    exact ih (fun fam hfam => hleft fam (mem_of_mem_beside hfam))
      hroots hfaithful hspelled.2.2
  | @keep free id c c' children children' siblings siblings' hedited hhere hbelow _ ihc ihs =>
    obtain ⟨hnode, hchildren, hsiblings⟩ := hspelled
    obtain ⟨hjoined, hkept⟩ := hleft _ List.mem_cons_self _ hhere
    have helement := hedited.isElement_eq
    have hleaf : c'.isLeafElement = c.isLeafElement := by
      rw [Content.isLeafElement, hedited.selfClosing, hedited.name, Content.isLeafElement]
    refine ⟨⟨⟨?_, ?_, ?_, ?_⟩, ?_, ?_⟩, ?_, ?_⟩
    · exact hnode.spelled.edited hedited (hroots.filled c' List.mem_cons_self)
    · intro hchildless
      rw [helement, hleaf] at hchildless
      -- Nothing is left of no children.
      obtain rfl := contents_eq_nil_iff.mp (hnode.childless hchildless)
      rw [hbelow.eq_nil]
      rfl
    · intro helement' hself
      rw [hedited.name]
      exact hnode.foreign (helement ▸ helement') (hedited.selfClosing ▸ hself)
    · intro htext
      change siblings'.contents.head?.any (·.isText) = false
      rw [← head?_roots, roots_contents]
      cases hnext : (siblings'.roots.map (·.2)).head? with
      | none => rfl
      | some d => exact hroots.isText_head? htext hnext
    · exact fun helement' => (hfaithful c' List.mem_cons_self).separate helement' options
    · intro helement' hraw
      change rawIn (c'.name :: outer) = true at hraw
      rw [hedited.name] at hraw
      obtain ⟨hplain, hbelowRaw⟩ := hnode.raw (helement ▸ helement') hraw
      -- Raw text counts as written, so no pass touches it.
      have hnotFree : (free && !c.preservesText) = false := by
        rw [rawIn, Bool.and_eq_true, List.head?_cons, Option.any_some] at hraw
        rw [Content.preservesText, ← helement, helement', Tag.preservesText, hraw.2, Bool.or_true,
          Bool.true_and, Bool.not_true, Bool.and_false]
      have hsame := hbelow.contents_eq_of_rawBelow hbelowRaw
        (hkept hnotFree (isText_of_rawBelow hbelowRaw))
      change sameIgnoringCase c'.name "plaintext" = false ∧ children'.contents.RawBelow c'.name
      rw [hedited.name, hsame]
      exact ⟨hplain, hbelowRaw⟩
    · change children'.contents.Spelled options (c'.name :: outer)
      rw [hedited.name]
      exact ihc (fun fam hfam => hleft fam (mem_of_mem_below hfam))
        hjoined (fun d hd => hfaithful d (mem_of_mem_below hd))
        hchildren
    · exact ihs (fun fam hfam => hleft fam (mem_of_mem_beside hfam))
        hroots.tail (fun d hd => hfaithful d (mem_of_mem_beside hd))
        hsiblings

/-- What passes leave nests. -/
theorem Becomes.wellNested (h : f.Becomes sorts Left free f') {quirks : Bool}
    (hnested : f.contents.WellNested quirks outer) : f'.contents.WellNested quirks outer := by
  induction h generalizing outer with
  | nil => trivial
  | drop _ _ ih => exact ih hnested.2.2
  | keep hedited _ _ _ ihc ihs =>
    obtain ⟨hstart, hchildren, hsiblings⟩ := hnested
    refine ⟨fun helement => ?_, ?_, ihs hsiblings⟩
    · rw [hedited.name]
      exact hstart (hedited.isElement_eq ▸ helement)
    · rw [hedited.name]
      exact ihc hchildren

/-- Each node is a root or a child. -/
theorem mem_contents_iff (free : Bool) {c : Content} : c ∈ f.contents.toList ↔
    c ∈ f.roots.map (·.2) ∨ ∃ fam ∈ f.families free, c ∈ fam.contents := by
  induction f generalizing free with
  | nil => simp [contents, map, toList, roots, families]
  | node label children siblings ihc ihs =>
    obtain ⟨id, d⟩ := label
    rw [contents_node, toList, List.mem_cons, List.mem_append, ihc (free && !d.preservesText),
      ihs free, roots, List.map_cons, List.mem_cons, families]
    simp only [List.mem_cons, List.mem_append, or_and_right, exists_or, exists_eq_left]
    rw [Family.contents, or_assoc, or_assoc, or_left_comm (a := c ∈ siblings.roots.map (·.2)),
      or_left_comm (a := c ∈ siblings.roots.map (·.2))]

end Forest

/-! ## What passes leave is read back -/

namespace AttributeRule

/-- Sorting the classes of an element makes no attribute larger. -/
theorem exists_shrinks_of_mem_modifyFirst {p : Attribute → Bool} {items : List Attribute}
    {a' : Attribute} (h : a' ∈ modifyFirst p sortClass items) : ∃ a ∈ items, a.Shrinks a' := by
  induction items with
  | nil => cases h
  | cons b items ih =>
    rw [modifyFirst] at h
    split at h
    · rcases List.mem_cons.mp h with rfl | h
      · exact ⟨b, List.mem_cons_self, shrinks_sortClass b⟩
      · exact ⟨a', List.mem_cons_of_mem _ h, .same⟩
    · rcases List.mem_cons.mp h with rfl | h
      · exact ⟨a', List.mem_cons_self, .same⟩
      · obtain ⟨a, ha, hshrinks⟩ := ih h
        exact ⟨a, List.mem_cons_of_mem _ ha, hshrinks⟩

/-- Each attribute that a rule leaves was there, with a value that may have shrunk. -/
theorem Rule.exists_shrinks_of_mem_run {rule : Rule} {c : Content} {a' : Attribute}
    (h : a' ∈ (rule.run c).1.toList) : ∃ a ∈ c.attributes.toList, a.Shrinks a' := by
  have hstays : a' ∈ c.attributes.toList → ∃ a ∈ c.attributes.toList, a.Shrinks a' :=
    fun h => ⟨a', h, .same⟩
  cases rule with
  | readdress change? shortens =>
    rw [run, Links.replaceAddresses_eq] at h
    obtain ⟨a, ha, rfl⟩ := List.mem_map.mp h
    exact ⟨a, ha, shrinks_readdressed shortens a⟩
  | dropOne d => exact hstays ((d.sublist_rule c).subset h)
  | dropAll drops fades => exact hstays ((sublist_dropEach c _ drops).subset h)
  | dropEmpty => exact hstays (List.mem_filter.mp h).1
  | orderClasses => exact exists_shrinks_of_mem_modifyFirst h
  | orderNames => exact hstays ((perm_sortByName c).mem_iff.mp h)

end AttributeRule

/-- Trees that are read back however they are written. -/
structure Forest.Fit (f : Forest Content) : Prop where
  faithful : ∀ c ∈ f.toList, c.Faithful
  spelled : f.Spelled {} []
  nested : f.WellNested (Doctype.pageQuirks f.roots) []

/-- **A fit tree is read back** from its markup, if its elements may nest as deep as they do. -/
theorem Forest.Fit.parse_markup {maxDepth : Nat} {f : Forest Content} (h : f.Fit)
    (hheight : f.height ≤ maxDepth) (options : WriteOptions) :
    Forest.parse maxDepth
        (String.ofList (f.markup options (Doctype.pageQuirks f.roots) [] .endOfPage)) =
      .ok (f.asRead options []) :=
  Forest.parse_markup (h.spelled.of_faithful h.faithful options) (h.nested.nests _ _ _) hheight

namespace Document

open Pass

variable {root : NodeId} {f f' : NumberedForest} {w : Work}

/-- What is in a forest is in one of its families. -/
theorem mem_contents_iff (root : NodeId) {c : Content} :
    c ∈ f.contents.toList ↔ ∃ fam ∈ familiesOf root f, c ∈ fam.contents := by
  rw [Forest.mem_contents_iff true, familiesOf, Forest.families]
  simp only [List.mem_cons, List.mem_append, or_and_right, exists_or, exists_eq_left,
    Forest.families, List.not_mem_nil, or_false]
  rfl

/-- Passes leave attributes clean. -/
theorem Makes.clean {fam fam' : Family} (h : Makes w fam fam') (htidy : fam.Tidy)
    (hfaithful : ∀ c ∈ fam.contents, c.Faithful) {c' : Content} (hc' : c' ∈ fam'.contents)
    (helement : c'.isElement = true) : ∀ a' ∈ c'.attributes.toList, a'.Clean := by
  have hothers : (∀ r, w ≠ .rule r) → ∀ a' ∈ c'.attributes.toList, a'.Clean := fun hw =>
    (hfaithful c' (h.mem_of_isElement hw hc' helement)).clean helement
  cases w with
  | rule r =>
    rw [h.contents_eq, Work.left, join_ruledIn htidy] at hc'
    obtain ⟨c, hc, rfl⟩ := List.mem_map.mp hc'
    rw [(alike_ruled r.run c).isElement_eq] at helement
    rw [ruled, if_pos helement]
    intro a' ha'
    obtain ⟨a, ha, hshrinks⟩ := AttributeRule.Rule.exists_shrinks_of_mem_run ha'
    exact ((hfaithful c hc).clean helement a ha).shrinks hshrinks
  | _ => exact hothers (by simp)

/-- Passes leave nodes that hold nothing that nodes of their kind do not use. -/
theorem Step.faithful (h : Step w root f f') (hfaithful : ∀ c ∈ f.contents.toList, c.Faithful) :
    ∀ c' ∈ f'.contents.toList, c'.Faithful := by
  intro c' hc'
  obtain ⟨fam', hfam', hmem'⟩ := (mem_contents_iff root).mp hc'
  obtain ⟨fam, hfam, hfree, hedited, hthins, hleft⟩ := h.turns.exists_family fam' hfam'
  have hhere : ∀ c ∈ fam.contents, c.Faithful := fun c hc =>
    hfaithful c ((mem_contents_iff root).mpr ⟨fam, hfam, hc⟩)
  have hmakes : Makes w fam fam' := ⟨hfree, hedited.toAlike, hleft⟩
  obtain ⟨child', hchild', rfl⟩ := List.mem_map.mp hmem'
  obtain ⟨child, hchild, hedited⟩ := hthins.exists_of_mem hchild'
  have hold := hhere child.2 (List.mem_map_of_mem hchild)
  refine ⟨⟨fun hnot => ?_, fun helement => ?_⟩, hmakes.clean (h.before fam hfam) hhere hmem'⟩
  · rw [hedited.name]
    exact hold.name (hedited.isElement_eq ▸ hnot)
  · rw [hedited.isElement_eq] at helement
    have htext : child.2.isText = false := by
      rw [Content.isElement, decide_eq_true_eq] at helement
      rw [Content.isText, helement]
      rfl
    rw [hedited.value htext]
    exact hold.value helement

/-- What a step leaves of a fit tree is fit. -/
theorem Step.fit (h : Step w root f f') (hfit : f.contents.Fit) : f'.contents.Fit := by
  obtain ⟨hhere, hbelow⟩ := h.turns.below
  have hfaithful := h.faithful hfit.faithful
  have hquirks : Doctype.pageQuirks f'.contents.roots = Doctype.pageQuirks f.contents.roots := by
    have hmakes : Makes w ⟨root, .document, true, f.roots⟩ ⟨root, .document, true, f'.roots⟩ :=
      ⟨rfl, .refl _, hhere⟩
    rw [Forest.roots_contents, Forest.roots_contents]
    exact hmakes.pageQuirks_eq (h.before _ List.mem_cons_self)
  refine ⟨hfaithful, ?_, ?_⟩
  · refine hbelow.spelled (fun fam hfam left hleft => ?_)
      (h.after _ List.mem_cons_self).joined hfaithful hfit.spelled
    have htidy := h.before fam (Forest.mem_of_mem_below hfam)
    rw [Family.Leaves] at hleft
    rw [hleft]
    exact ⟨joined_join (by simp) _, w.join_left_of_texts htidy⟩
  · rw [hquirks]
    exact hbelow.wellNested hfit.nested

/-- **What a run leaves of a fit tree is fit.** -/
theorem Leads.fit {ws : List Work} (h : Leads root ws f f') (hfit : f.contents.Fit) :
    f'.contents.Fit :=
  h.preserves (R := fun f f' => f.contents.Fit → f'.contents.Fit)
    (fun _ hfit => hfit) (fun h h' hfit => h' (h hfit)) (fun _ _ _ _ hstep => hstep.fit) hfit

end Document

/-! ## Trees that were read -/

namespace Content

/-- The node of a comment or a declaration has no name. -/
theorem sparing_of_leaf? {token : Token} {c : Content} (h : token.leaf? = some c) : c.Sparing := by
  cases token <;> cases h <;> exact ⟨fun _ => rfl, (nomatch ·)⟩

/-- An element has no value. -/
theorem sparing_element (name : String) (attributes : Attributes) (selfClosing : Bool) :
    (Content.element name attributes selfClosing).Sparing :=
  ⟨(nomatch ·), fun _ => rfl⟩

end Content

/-- The nodes of a forest, wherever they stand. -/
theorem Forest.map_content_spots (outer : List String) (before : List Tree) (f : Forest Content) :
    (f.spots outer before).map (·.content) = f.toList := by
  induction f generalizing outer before with
  | nil => rfl
  | node c children siblings ihc ihs =>
    rw [spots, List.map_cons, List.map_append, ihc, ihs, toList]

namespace Builder

/-- A text that grows has no name, either. -/
theorem sparing_joinText {outer : List String} {trees : List Tree}
    (h : ∀ spot ∈ treeSpots outer trees, spot.content.Sparing) (value : String) :
    ∀ spot ∈ treeSpots outer (joinText value trees), spot.content.Sparing := by
  have hleaf : (Content.leaf .text value).Sparing :=
    ⟨fun _ => rfl, (nomatch ·)⟩
  cases trees with
  | nil => exact List.forall_mem_singleton.mpr hleaf
  | cons tree earlier =>
    obtain ⟨last, below⟩ := tree
    rw [joinText]
    split
    · next htext =>
      rw [treeSpots, List.forall_mem_append, List.forall_mem_cons] at h ⊢
      refine ⟨h.1, ⟨h.2.1.name, fun helement => ?_⟩, h.2.2⟩
      rw [Content.isText, decide_eq_true_eq] at htext
      have hkind : last.kind = .element := of_decide_eq_true helement
      rw [htext] at hkind
      cases hkind
    · rw [treeSpots, List.forall_mem_append]
      exact ⟨h, List.forall_mem_singleton.mpr hleaf⟩

/-- No token makes a node that holds what nodes of its kind do not use. -/
theorem Effect.sparing {b b' : Builder} {token : Token} {raw : Option String}
    (heffect : b.Effect token b' raw) (h : ∀ spot ∈ b.spots, spot.content.Sparing) :
    ∀ spot ∈ b'.spots, spot.content.Sparing := by
  have hobserved : ∀ spot ∈ (b.observe token).spots, spot.content.Sparing := by
    rwa [spots_observe]
  have hadded {b : Builder} (h : ∀ spot ∈ b.spots, spot.content.Sparing) {c : Content}
      (hc : c.Sparing) : ∀ spot ∈ (b.insert (c, .nil)).spots, spot.content.Sparing := by
    rw [spots_insert, List.forall_mem_append]
    exact ⟨h, List.forall_mem_singleton.mpr hc⟩
  cases heffect with
  | text value =>
    rw [spots_eq, List.forall_mem_append] at hobserved
    rw [addText, spots_onChildren, List.forall_mem_append]
    exact ⟨hobserved.1, sparing_joinText hobserved.2 value⟩
  | leaf hleaf => exact hadded hobserved (Content.sparing_of_leaf? hleaf)
  | leafTag tag n selfClosing _ _ _ =>
    refine hadded ?_ (Content.sparing_element tag.name tag.attributes selfClosing)
    rwa [spots_close]
  | openTag tag n selfClosing _ _ _ =>
    rw [spots_opened, spots_close, List.forall_mem_append]
    exact ⟨hobserved, List.forall_mem_singleton.mpr
      (Content.sparing_element tag.name tag.attributes selfClosing)⟩
  | lineBreak _ _ _ => exact hadded hobserved (Content.sparing_element "br" .empty false)
  | endTag _ _ _ _ _ => rwa [spots_close]
  | paragraph _ _ _ _ => exact hadded hobserved (Content.sparing_element "p" .empty false)
  | dropped _ _ _ _ => exact hobserved

/-- Nor do the tokens of a page. -/
theorem Reads.sparing {b final : Builder} {raw : Option String} {input : List Char}
    {events : List Event} (hreads : Reads b raw input events final)
    (h : ∀ spot ∈ b.spots, spot.content.Sparing) :
    ∀ spot ∈ final.spots, spot.content.Sparing := by
  induction hreads with
  | nil _ => exact h
  | cons _ heffect _ ih => exact ih (heffect.sparing h)

end Builder

namespace Forest

variable {f : Forest Content} {outer : List String}

/-- Nodes that were read hold nothing that nodes of their kind do not use. -/
theorem sparing_of_parse {maxDepth : Nat} {page : String} (h : Forest.parse maxDepth page = .ok f) :
    ∀ c ∈ f.toList, c.Sparing := by
  obtain ⟨b, -, hreads, rfl⟩ := exists_reads_of_parse h
  rw [← map_content_spots [] [], Builder.spots_forest]
  exact List.forall_mem_map.mpr (hreads.sparing fun spot hspot => nomatch hspot)

/-- Every raw text element inside `outer` can be ended: it is no `plaintext`, and its end tag is nowhere
in its text. -/
def RawEnds : List String → Forest Content → Prop
  | _, nil => True
  | outer, node c children siblings =>
    (c.isElement = true → rawIn (c.name :: outer) = true →
      sameIgnoringCase c.name "plaintext" = false ∧
        ∀ text ∈ children.roots, IsRawText c.name text.value.toList) ∧
      children.RawEnds (c.name :: outer) ∧ siblings.RawEnds outer

instance instDecidableRawEnds : (outer : List String) → (f : Forest Content) →
    Decidable (f.RawEnds outer)
  | _, nil => inferInstanceAs (Decidable True)
  | outer, node c children siblings =>
    have := instDecidableRawEnds (c.name :: outer) children
    have := instDecidableRawEnds outer siblings
    inferInstanceAs (Decidable ((_ → _ → _ ∧ _) ∧ _ ∧ _))

/-- A tree whose markup can be told apart: its raw texts from the end tags after them, its attributes
from each other and from the quotes around their values, and its elements from those around them, which
their start tags do not end. -/
structure Legible (f : Forest Content) : Prop where
  raw : f.RawEnds []
  clean : ∀ c ∈ f.toList, ∀ a ∈ c.attributes.toList, a.Clean
  nested : f.WellNested (Doctype.pageQuirks f.roots) []

instance (f : Forest Content) : Decidable f.Legible :=
  decidable_of_iff
    (f.RawEnds [] ∧ (∀ c ∈ f.toList, ∀ a ∈ c.attributes.toList, a.Clean) ∧
      f.WellNested (Doctype.pageQuirks f.roots) [])
    ⟨fun ⟨hraw, hclean, hnested⟩ => ⟨hraw, hclean, hnested⟩,
      fun ⟨hraw, hclean, hnested⟩ => ⟨hraw, hclean, hnested⟩⟩

/-- What was read can be written, if its raw texts can be ended and its attributes are clean. -/
theorem Built.spelled (h : f.Built outer) (hkept : f.RawKept outer) (hraw : f.RawEnds outer)
    (hfaithful : ∀ c ∈ f.toList, c.Faithful) : f.Spelled {} outer := by
  induction f generalizing outer with
  | nil => trivial
  | node c children siblings ihc ihs =>
    obtain ⟨hnode, hchildren, hsiblings⟩ := h
    obtain ⟨hone, hkeptBelow, hkeptBeside⟩ := hkept
    obtain ⟨hends, hrawBelow, hrawBeside⟩ := hraw
    refine ⟨⟨hnode, fun helement => (hfaithful c List.mem_cons_self).separate helement {},
      fun helement htag => ?_⟩,
      ihc hchildren hkeptBelow hrawBelow fun d hd => hfaithful d (mem_of_mem_below hd),
      ihs hsiblings hkeptBeside hrawBeside fun d hd => hfaithful d (mem_of_mem_beside hd)⟩
    obtain ⟨hplain, htexts⟩ := hends helement htag
    refine ⟨hplain, ?_⟩
    -- at most one text is below, and its end tag is nowhere in it
    cases children with
    | nil => trivial
    | node text below after =>
      obtain ⟨htext, hbelow, hafter⟩ := hone htag
      exact ⟨of_decide_eq_true htext, htexts text List.mem_cons_self, hbelow, hafter⟩

/-- **A legible tree that was read is fit.** -/
theorem Legible.fit {maxDepth : Nat} {page : String} (h : f.Legible)
    (hparse : Forest.parse maxDepth page = .ok f) : f.Fit := by
  have hfaithful : ∀ c ∈ f.toList, c.Faithful := fun c hc =>
    ⟨sparing_of_parse hparse c hc, fun _ => h.clean c hc⟩
  exact ⟨hfaithful,
    (built_of_parse hparse).spelled (rawKept_of_parse hparse) h.raw hfaithful, h.nested⟩

end Forest

/-! ## Minifying twice -/

namespace Document

variable {doc : Document} {root : NodeId} {f : NumberedForest} {maxDepth : Nat}

/-- **What is written of a fit tree is read, and written again as it was.** -/
theorem Stands.exists_reread (h : doc.Stands root f) (hfit : f.contents.Fit)
    (hheight : f.contents.height ≤ maxDepth) (options : WriteOptions) :
    ∃ output reread f', doc.serialize options = .ok output ∧
      Document.parse maxDepth output = .ok reread ∧ reread.Stands 0 f' ∧ Tidy 0 f' ∧
      f'.contents = f.contents.asRead options [] ∧ reread.serialize options = .ok output := by
  have hforest := hfit.parse_markup hheight options
  have hparse : Document.parse maxDepth (String.ofList (f.contents.markup options
      (Doctype.pageQuirks f.contents.roots) [] .endOfPage)) =
        .ok (ofForest (f.contents.asRead options [])) := by
    rw [Document.parse_eq_map, hforest]
    rfl
  obtain ⟨g, hforest', hstands, htidy⟩ := exists_stands_of_parse hparse
  obtain rfl : f.contents.asRead options [] = g := Except.ok.inj (hforest.symm.trans hforest')
  have hquirks : Doctype.pageQuirks (f.contents.asRead options []).roots =
      Doctype.pageQuirks f.contents.roots := by
    rw [Forest.roots_asRead]
    exact (Content.tidies_asRead (fun c hc =>
      hfit.faithful c (Forest.mem_toList_of_mem_roots hc)) options _).pageQuirks_eq
  refine ⟨_, _, _, h.serialize options, hparse, hstands, htidy, Forest.contents_number .., ?_⟩
  rw [hstands.serialize, Forest.contents_number, hquirks,
    Forest.markup_asRead hfit.spelled.built hfit.faithful]

end Document

namespace Settings

/-- **A page that is minified twice is minified once**, whatever is switched on, if its tree is
legible. Pages that are refused stay as they are. -/
theorem minify_minify (s : Settings) (read? : String → Option Url) {page : String}
    (h : ∀ doc f, Document.parse s.depthLimit page = .ok doc →
      doc.tree = .ok (.node .document f .nil) → f.Legible) :
    s.minify read? (s.minify read? page) = s.minify read? page := by
  cases hparse : Document.parse s.depthLimit page with
  | error e =>
    have hsame := (s.minify?_of_parse_error read? hparse).2
    rw [hsame, hsame]
  | ok doc =>
    obtain ⟨f, hforest, hstands, htidy⟩ := Document.exists_stands_of_parse hparse
    have htree : doc.tree = .ok (.node .document f .nil) := by
      rw [hstands.tree, Document.treeOf, Forest.contents_number]
    have hlegible := (h doc f hparse htree).fit hforest
    obtain ⟨counts, doc', f', hrun, hstands', -, hleads⟩ :=
      hstands.exists_succeeds htidy read? s.context s.active
    have hfit : f'.contents.Fit := hleads.fit (by rwa [Forest.contents_number])
    -- the output is read under some limit, if not under that of the settings
    obtain ⟨output, reread, f'', hwrite, hparse', hstands'', htidy'', hread, hwrite'⟩ :=
      hstands'.exists_reread hfit (Nat.le_max_left _ s.depthLimit) s.writeOptions
    rw [(s.minify?_of_succeeds hparse hrun hwrite).2]
    cases hagain : Document.parse s.depthLimit output with
    | error e => exact (s.minify?_of_parse_error read? hagain).2
    | ok again =>
      rw [Document.parse_of_le hagain (Nat.le_max_right _ _)] at hparse'
      cases hparse'
      -- all passes rest on the tree that was written, and so on what is read of it
      have hrests := hleads.restsOn s.pairwise_active [] (by simp) (by simp)
      have hrun' := hstands''.succeeds_of_restsOn htidy'' fun pass hpass fam'' hfam'' =>
        let ⟨fam', hfam', hrereads⟩ := Document.exists_rereads hread hfit.faithful fam'' hfam''
        (hrests pass hpass fam' hfam').asRead hrereads
      exact (s.minify?_of_succeeds hagain hrun' hwrite').2

/-- A page with a bracket in a text, an end tag that ends nothing, and one that breaks off. What is
written of it reads as another tree, with the bracket of the last escaped, and is minified to itself. -/
theorem minify_minify_brokenTags :
    ∃ doc f, Document.parse off.withAll.depthLimit "<i>1  <2</p>&</" = .ok doc ∧
      doc.tree = .ok (.node .document f .nil) ∧ f.Legible ∧
      off.withAll.minify Url.parse? (off.withAll.minify Url.parse? "<i>1  <2</p>&</") =
        off.withAll.minify Url.parse? "<i>1  <2</p>&</" := by
  obtain ⟨d, f, -, hparse, htree, hlegible⟩ := Document.exists_of_run_log off.withAll.depthLimit
    "<i>1  <2</p>&</" (fun _ f => f.Legible) ⟨_,
      Builder.run_log_of_step "1  <2</p>&</".toList
        (Builder.next?_bareTag "i" (by decide) _) rfl <|
      Builder.run_log_of_step "<2</p>&</".toList rfl rfl <|
      Builder.run_log_of_step "</p>&</".toList rfl rfl <|
      Builder.run_log_of_step "&</".toList rfl rfl <|
      Builder.run_log_of_step "</".toList rfl rfl <|
      Builder.run_log_of_step [] rfl rfl Builder.run_log_nil, by decide⟩
  refine ⟨d.doc, f, hparse, htree, hlegible, minify_minify _ Url.parse? fun doc f' hdoc hf' => ?_⟩
  rw [hparse] at hdoc
  cases hdoc
  rw [htree] at hf'
  cases hf'
  exact hlegible

/-- A text in a `plaintext` element. -/
def plaintextForest (text : String) : Forest Content :=
  .node (.element "plaintext" .empty false) (.node (.leaf .text text) .nil .nil) .nil

/-- The text of a `plaintext` element goes on to the end of the page. -/
theorem parse_plaintext {text : String} (h : text.isEmpty = false) :
    Document.parse off.depthLimit ("<plaintext>" ++ text) =
      .ok (.ofForest (plaintextForest text)) := by
  have hstart : Token.next? none ("<plaintext>" ++ text).toList =
      some (.startTag ⟨"plaintext", .empty, false⟩, text.toList) := by
    have hseparate : Attributes.Separate {} .empty := by decide
    rw [String.toList_append]
    exact Builder.next?_writeStart (c := .element "plaintext" .empty false) (by decide)
      (by decide) hseparate text.toList
  have hopen : Builder.step off.depthLimit (.startTag ⟨"plaintext", .empty, false⟩) {} =
      .ok ({ frames := [{ content := .element "plaintext" .empty false }], decided := true },
        some "plaintext") := by decide +kernel
  have htext : Token.next? (some "plaintext") text.toList = some (.text text, []) := by
    have hplain : sameIgnoringCase "plaintext" "plaintext" = true := by decide
    rw [Token.next?, Option.bind_some, Token.rawText?, if_pos hplain]
    cases hcs : text.toList with
    | nil =>
      rw [String.toList_eq_nil_iff.mp hcs] at h
      cases h
    | cons c cs =>
      have hvalue : String.ofList (c :: cs) = text := by rw [← hcs, String.ofList_toList]
      exact congrArg (fun s => some (Token.text s, ([] : List Char))) hvalue
  have hobserve : ∀ b : Builder, b.decided = true → b.observe (.text text) = b := by
    intro b hb
    rw [Builder.observe]
    split
    · rfl
    · rw [← hb]
  rw [Document.parse_eq_map, Forest.parse, Builder.run_of_step hstart hopen,
    Builder.run_of_step htext rfl, Builder.run_nil, hobserve _ rfl]
  rfl

/-- **A `plaintext` element gets one more end tag whenever its page is minified.** -/
theorem minify_plaintext (read? : String → Option Url) (text : String) (h : text.isEmpty = false) :
    off.minify read? ("<plaintext>" ++ text) = "<plaintext>" ++ text ++ "</plaintext>" := by
  have hrun : Run.Succeeds read? off.context off.active [] (.ofForest (plaintextForest text))
      (.ofForest (plaintextForest text)) := .nil _
  refine (off.minify?_of_succeeds (parse_plaintext h) hrun ?_).2
  rw [Document.serialize_ofForest, plaintextForest, Forest.markup_of_element rfl rfl,
    Forest.markup_of_text rfl]
  have hraw : rawIn ["plaintext"] = true := by decide
  refine congrArg Except.ok (String.toList_inj.mp ?_)
  rw [String.toList_ofList, String.toList_append, String.toList_append]
  change "<plaintext>".toList ++ ((if rawIn ["plaintext"] then text else escapeText text).toList ++
    [] ++ ("</plaintext>".toList ++ [])) = _
  rw [if_pos hraw, List.append_nil, List.append_nil, List.append_assoc]

/-- What follows `plaintext` is read as text to the end of the page, end tags included, so a second run
takes for text the end tag that the first one wrote. -/
theorem minify_minify_plaintext_ne :
    off.minify Url.parse? (off.minify Url.parse? "<plaintext>a") ≠
      off.minify Url.parse? "<plaintext>a" := by
  have hfirst : off.minify Url.parse? "<plaintext>a" = "<plaintext>a</plaintext>" :=
    minify_plaintext Url.parse? "a" (by decide)
  have hsecond : off.minify Url.parse? "<plaintext>a</plaintext>" =
      "<plaintext>a</plaintext></plaintext>" :=
    minify_plaintext Url.parse? "a</plaintext>" (by decide)
  rw [hfirst, hsecond]
  decide

end Settings

end HtmlMinify
