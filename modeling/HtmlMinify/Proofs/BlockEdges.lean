import HtmlMinify.Proofs.ParsedDocuments

/-!
# Whitespace at the edges of texts

Trimming goes through the children of each node, so what becomes of a text depends on its parent and
on the siblings next to it. An edge of a text is a block edge if the sibling there is a block, or if
there is none and the parent is one. Whitespace goes at block edges and nowhere else, with one
exception: a blank text goes where its parent is said to hold markup only. The document node counts
as such a parent, so that a page without `html` and `body` loses the space between two inline
elements.

## Main statements

* `Document.apply_trimAll_of_parse`: what trimming makes of each text.
* `Document.trimAll_between_inline_ne`: the exception at work.
-/

namespace HtmlMinify

open Text

namespace Whitespace

/-- A text without its leading and its trailing whitespace, each if asked. -/
def trimAt (leading trailing : Bool) (value : String) : String :=
  match leading, trailing with
  | false, false => value
  | true, false => trimStart value
  | false, true => trimEnd value
  | true, true => trim value

/-- **How a text is trimmed**: it goes if it is blank where only markup counts, and else loses
whitespace at the edges of blocks. -/
theorem trimmed_eq (parent : Content) (before after : Option Content) (value : String) :
    trimmed parent before after value =
      if holdsMarkupOnly parent && isBlank value then ""
      else trimAt (blockEdge before parent) (blockEdge after parent) value := by
  rw [trimmed]
  cases blockEdge before parent <;> cases blockEdge after parent <;> rfl

/-- Each text among siblings is trimmed by its own neighbours. -/
theorem exists_trimmedSiblings_append (parent : Content) (first : Option Content)
    (before : List Content) (c : Content) (after : List Content) :
    ∃ front, front.length = before.length ∧
      trimmedSiblings parent first (before ++ c :: after) =
        front ++ (if c.isText then
            { c with value := trimmed parent (before.getLast?.or first) after.head? c.value }
          else c) :: trimmedSiblings parent (some c) after := by
  induction before generalizing first with
  | nil => exact ⟨[], rfl, rfl⟩
  | cons d before ih =>
    obtain ⟨front, hlength, heq⟩ := ih (some d)
    have hlast : (d :: before).getLast?.or first = before.getLast?.or (some d) := by
      rw [List.getLast?_cons]
      cases before.getLast? <;> rfl
    rw [List.cons_append, trimmedSiblings, heq, hlast]
    exact ⟨_ :: front, by rw [List.length_cons, hlength, List.length_cons], rfl⟩

/-- Trimming drops no node. -/
theorem length_trimmedSiblings (parent : Content) (first : Option Content) (l : List Content) :
    (trimmedSiblings parent first l).length = l.length := by
  have h := congrArg List.length (map_isText_trimmedSiblings parent first l)
  rwa [List.length_map, List.length_map] at h

end Whitespace

/-- Where no child goes, the ids stay. -/
theorem Thins.map_fst_eq {sorts : Bool} {old new : List (NodeId × Content)}
    (h : Thins sorts old new) (hlength : new.length = old.length) :
    new.map (·.1) = old.map (·.1) :=
  h.sublist_map.eq_of_length (by rw [List.length_map, List.length_map, hlength])

namespace Document

variable {doc : Document}

/-! ## Texts that count as written -/

/-- A node somewhere below an element whose text counts as written. -/
inductive Preserved (doc : Document) : NodeId → Prop where
  | child {id above : NodeId} {node owner : Node} (hnode : doc.nodes[id]? = some node)
    (hparent : node.parent = some above) (howner : doc.nodes[above]? = some owner)
    (hpreserves : owner.preservesText = true) : Preserved doc id
  | inside {id above : NodeId} {node : Node} (hnode : doc.nodes[id]? = some node)
    (hparent : node.parent = some above) (habove : Preserved doc above) : Preserved doc id

/-- What is preserved is inside an element that preserves its text. -/
theorem Preserved.exists_preservesText {id : NodeId} (h : doc.Preserved id) :
    ∃ node ∈ doc.nodes.toList, node.preservesText = true := by
  induction h with
  | child _ _ howner hpreserves =>
    exact ⟨_, Array.mem_toList_iff.mpr (Array.mem_of_getElem? howner), hpreserves⟩
  | inside _ _ _ ih => exact ih

/-- The text of a family may change unless it stands below such an element. -/
theorem preserved_of_not_free {f : NumberedForest} {parent : Option NodeId} {free : Bool}
    (h : doc.Shows parent f) (habove : free = false → ∀ id ∈ f.ids, doc.Preserved id)
    {fam : Family} (hfam : fam ∈ f.families free) (hfree : fam.free = false) :
    ∀ id ∈ fam.members, doc.Preserved id := by
  induction f generalizing parent free with
  | nil => cases hfam
  | node label children siblings ihc ihs =>
    obtain ⟨id, c⟩ := label
    obtain ⟨hnode, hchildren, hsiblings⟩ := h
    rw [Forest.ids_node] at habove
    have hbelow : (free && !c.preservesText) = false → ∀ x ∈ children.ids, doc.Preserved x := by
      intro hnot x hx
      obtain ⟨child, hchild, rfl⟩ := List.mem_map.mp hx
      obtain ⟨hroots, -⟩ := (shows_iff_keeps true).mp hchildren
      obtain ⟨childNode, hchildNode, -, hparent⟩ := exists_node_of_entry (hroots child hchild)
      by_cases hpreserves : c.preservesText = true
      · exact .child hchildNode hparent hnode hpreserves
      · rw [Bool.eq_false_iff.mpr hpreserves, Bool.not_false, Bool.and_true] at hnot
        exact .inside hchildNode hparent (habove hnot id List.mem_cons_self)
    rw [Forest.families, List.mem_cons, List.mem_append] at hfam
    rcases hfam with rfl | hfam | hfam
    · exact hbelow hfree
    · exact ihc hchildren hbelow hfam
    · exact ihs hsiblings (fun hnot x hx => habove hnot x (List.mem_cons_of_mem _ hx)) hfam

/-- Text that is not preserved is free. -/
theorem Stands.free_of_not_preserved {root : NodeId} {f : NumberedForest} (h : doc.Stands root f)
    {fam : Family} (hfam : fam ∈ familiesOf root f) {id : NodeId} (hid : id ∈ fam.members)
    (hnot : ¬ doc.Preserved id) : fam.free = true := by
  rw [← Bool.not_eq_false]
  intro hfree
  exact hnot (preserved_of_not_free h.shows (by simp) hfam hfree id hid)

/-! ## What becomes of a text -/

/-- A text of a family that may change is found trimmed under its id. -/
theorem mem_of_leaves_trimmed {fam : Family} {left : List (NodeId × Content)}
    (hfree : fam.free = true) (hthins : Thins false fam.children left)
    (hleaves : Family.Leaves trimmed fam left) {before after : List (NodeId × Content)}
    {x : NodeId × Content} (hsplit : fam.children = before ++ x :: after)
    (htext : x.2.isText = true) :
    (x.1, { x.2 with
      value := Whitespace.trimmed fam.content (before.map (·.2)).getLast? (after.map (·.2)).head?
        x.2.value }) ∈ left := by
  have hcontents : left.map (·.2) = Whitespace.trimmedSiblings fam.content none fam.contents := by
    rw [Family.Leaves, trimmed, if_pos hfree, trimmedIn] at hleaves
    exact hleaves
  have hids : left.map (·.1) = fam.children.map (·.1) := by
    refine hthins.map_fst_eq ?_
    have hlength := congrArg List.length hcontents
    rwa [List.length_map, Whitespace.length_trimmedSiblings, Family.contents,
      List.length_map] at hlength
  obtain ⟨front, hfront, htrimmed⟩ := Whitespace.exists_trimmedSiblings_append fam.content none
    (before.map (·.2)) x.2 (after.map (·.2))
  rw [Family.contents, hsplit, List.map_append, List.map_cons, htrimmed, if_pos htext,
    Option.or_none] at hcontents
  rw [hsplit, List.map_append, List.map_cons] at hids
  -- The ids and the contents of the children split at the same place.
  obtain ⟨head, tail, rfl, hhead, htail⟩ := List.map_eq_append_iff.mp hcontents
  obtain ⟨y, rest, rfl, hy, -⟩ := List.map_eq_cons_iff.mp htail
  rw [List.map_append, List.map_cons] at hids
  have hlength : (head.map (·.1)).length = (before.map (·.1)).length := by
    rw [← hhead, List.length_map, List.length_map] at hfront
    rw [List.length_map, List.length_map, hfront]
  have hid : y.1 = x.1 := (List.cons.inj (List.append_inj hids hlength).2).1
  rw [← hid, ← hy]
  exact List.mem_append_right _ List.mem_cons_self

/-- **Trimming strips whitespace at block edges only**, but for blank texts whose parent holds markup
only, and these go. -/
theorem apply_trimAll_of_parse {maxDepth : Nat} {page : String}
    (h : Document.parse maxDepth page = .ok doc) :
    ∃ changed doc', Whitespace.trimAll.apply doc = (.ok changed, doc') ∧
      ∀ {p t : NodeId} {parent text : Node} {before after : List (NodeId × Node)},
        doc.node p = .ok parent → doc.children p = .ok (before ++ (t, text) :: after) →
        text.isText = true → ¬ doc.Preserved t →
        ∃ text', doc'.node t = .ok text' ∧ text'.toContent =
          { text.toContent with
            value :=
              if Whitespace.holdsMarkupOnly parent.toContent && isBlank text.value then ""
              else Whitespace.trimAt
                (Whitespace.blockEdge (before.getLast?.map (·.2.toContent)) parent.toContent)
                (Whitespace.blockEdge (after.head?.map (·.2.toContent)) parent.toContent)
                text.value } := by
  obtain ⟨f, hstands, htidy, hfamily⟩ := exists_family_of_parse h
  obtain ⟨changed, doc', f', hrun, hstands', hturns⟩ := hstands.exists_apply_trimAll
  refine ⟨changed, doc', hrun, ?_⟩
  intro p t parent text before after hparent hchildren htext hnot
  obtain ⟨fam, hfam, -, hcontent, hstays, hsplit⟩ := hfamily hparent hchildren (by simp)
  rw [List.map_append, List.map_cons] at hsplit
  have hfree : fam.free = true := by
    refine hstands.free_of_not_preserved hfam ?_ hnot
    rw [Family.members, hsplit]
    simp
  obtain ⟨fam', hfam', -, -, hthins, hleaves⟩ :=
    hturns.exists_family_of_mem htidy.sound hfam hstays
  have hmem := mem_of_leaves_trimmed hfree hthins hleaves hsplit htext
  obtain ⟨text', htext', hvalue, -⟩ := exists_node_of_entry ((hstands'.keeps hfam').entry _ hmem)
  refine ⟨text', node_of_getElem? htext', hvalue.trans ?_⟩
  rw [Whitespace.trimmed_eq, hcontent, List.map_map, List.map_map, List.getLast?_map,
    List.head?_map]
  rfl

/-- Inline elements with a space between them, in a paragraph that begins with another. -/
def inlineInBlock : Forest Content :=
  .node (.element "p" .empty false)
    (.node (.leaf .text " ") .nil <|
      .node (.element "b" .empty false) (.node (.leaf .text "a") .nil .nil) <|
      .node (.leaf .text " ") .nil <|
      .node (.element "i" .empty false) (.node (.leaf .text "c") .nil .nil) .nil)
    .nil

theorem parse_inlineInBlock :
    Document.parse 2 "<p> <b>a</b> <i>c" = .ok (.ofForest inlineInBlock) :=
  parse_eq_ofForest
    (Builder.run_log_of_step " <b>a</b> <i>c".toList
        (Builder.next?_bareTag "p" (by decide) _) rfl <|
      Builder.run_log_of_step "<b>a</b> <i>c".toList rfl rfl <|
      Builder.run_log_of_step "a</b> <i>c".toList
        (Builder.next?_bareTag "b" (by decide) _) rfl <|
      Builder.run_log_of_step "</b> <i>c".toList rfl rfl <|
      Builder.run_log_of_step " <i>c".toList rfl rfl <|
      Builder.run_log_of_step "<i>c".toList rfl rfl <|
      Builder.run_log_of_step "c".toList (Builder.next?_bareTag "i" (by decide) _) rfl <|
      Builder.run_log_of_step [] rfl rfl Builder.run_log_nil).1
    rfl

/-- A blank after the start tag of a block goes, one between inline elements stays. -/
theorem apply_trimAll_of_parse_inlineInBlock :
    Document.parse 2 "<p> <b>a</b> <i>c" = .ok (.ofForest inlineInBlock) ∧
      ¬ (ofForest inlineInBlock).Preserved 2 ∧ ¬ (ofForest inlineInBlock).Preserved 5 ∧
      ∃ changed doc', Whitespace.trimAll.apply (ofForest inlineInBlock) = (.ok changed, doc') ∧
        (∃ text, doc'.node 2 = .ok text ∧ text.value = "") ∧
        ∃ text, doc'.node 5 = .ok text ∧ text.value = " " := by
  have hnone : ∀ id, ¬ (ofForest inlineInBlock).Preserved id := by
    intro id hpreserved
    obtain ⟨node, hnode, hpreserves⟩ := hpreserved.exists_preservesText
    have hall : (ofForest inlineInBlock).nodes.toList.all (!·.preservesText) = true := by decide
    have hnot := List.all_eq_true.mp hall node hnode
    rw [hpreserves] at hnot
    cases hnot
  obtain ⟨changed, doc', hrun, htexts⟩ := apply_trimAll_of_parse parse_inlineInBlock
  have hparent : (ofForest inlineInBlock).node 1 =
      .ok ⟨.element "p" .empty false, some 0, [2, 3, 5, 6]⟩ := rfl
  have hfirst : (ofForest inlineInBlock).children 1 =
      .ok ([] ++ (2, ⟨.leaf .text " ", some 1, []⟩) ::
        [(3, ⟨.element "b" .empty false, some 1, [4]⟩), (5, ⟨.leaf .text " ", some 1, []⟩),
          (6, ⟨.element "i" .empty false, some 1, [7]⟩)]) := rfl
  have hsecond : (ofForest inlineInBlock).children 1 =
      .ok ([(2, ⟨.leaf .text " ", some 1, []⟩), (3, ⟨.element "b" .empty false, some 1, [4]⟩)] ++
        (5, ⟨.leaf .text " ", some 1, []⟩) ::
        [(6, ⟨.element "i" .empty false, some 1, [7]⟩)]) := rfl
  obtain ⟨text, htext, hvalue⟩ := htexts hparent hfirst rfl (hnone 2)
  obtain ⟨text', htext', hvalue'⟩ := htexts hparent hsecond rfl (hnone 5)
  exact ⟨parse_inlineInBlock, hnone 2, hnone 5, changed, doc', hrun,
    ⟨text, htext, congrArg Content.value hvalue⟩,
    text', htext', congrArg Content.value hvalue'⟩

/-- Inline elements with a space between them, at the top of a page. -/
def inlineInPage : Forest Content :=
  .node (.element "b" .empty false) (.node (.leaf .text "a") .nil .nil) <|
    .node (.leaf .text " ") .nil <|
    .node (.element "i" .empty false) (.node (.leaf .text "b") .nil .nil) .nil

theorem parse_inlineInPage :
    Document.parse 1 "<b>a</b> <i>b</i>" = .ok (.ofForest inlineInPage) :=
  parse_eq_ofForest
    (Builder.run_log_of_step "a</b> <i>b</i>".toList
        (Builder.next?_bareTag "b" (by decide) _) rfl <|
      Builder.run_log_of_step "</b> <i>b</i>".toList rfl rfl <|
      Builder.run_log_of_step " <i>b</i>".toList rfl rfl <|
      Builder.run_log_of_step "<i>b</i>".toList rfl rfl <|
      Builder.run_log_of_step "b</i>".toList (Builder.next?_bareTag "i" (by decide) _) rfl <|
      Builder.run_log_of_step "</i>".toList rfl rfl <|
      Builder.run_log_of_step [] rfl rfl Builder.run_log_nil).1
    rfl

/-- **A space between two inline elements can go**: neither edge of the text is at a block. -/
theorem trimAll_between_inline_ne :
    Document.parse 1 "<b>a</b> <i>b</i>" = .ok (.ofForest inlineInPage) ∧
      (ofForest inlineInPage).children 0 =
        .ok [(1, ⟨.element "b" .empty false, some 0, [2]⟩), (3, ⟨.leaf .text " ", some 0, []⟩),
          (4, ⟨.element "i" .empty false, some 0, [5]⟩)] ∧
      Whitespace.blockEdge (some (.element "b" .empty false)) .document = false ∧
      Whitespace.blockEdge (some (.element "i" .empty false)) .document = false ∧
      ∃ changed doc' text, Whitespace.trimAll.apply (ofForest inlineInPage) = (.ok changed, doc') ∧
        doc'.node 3 = .ok text ∧ text.value ≠ " " :=
  ⟨parse_inlineInPage, rfl, by decide, by decide, _, _, ⟨.leaf .text "", some 0, []⟩, rfl, rfl,
    by decide⟩

end Document

end HtmlMinify
