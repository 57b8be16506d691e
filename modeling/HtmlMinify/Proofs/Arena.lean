import HtmlMinify.Proofs.Markup
import HtmlMinify.Proofs.Trees
import Mathlib.Data.List.Perm.Subperm

/-!
# The forest that a document shows

A document is a table of nodes with links. `Document.Shows` says that a forest with numbered nodes is
what is reached from some of them: each node of the forest is in the table under its number, with the
links that its place in the forest asks for. Reading off the tree and the outline is then recursion
over that forest.

## Main statements

* `Document.trees_of_shows`, `Document.outlines_of_shows`: the tree and the outline of a document.
* `Document.shows_ofForest`, `Document.tree_ofForest`: a document that was laid out from a forest
  shows it.
* `Document.exists_shows_of_validate`: a document that passes its check shows its tree, unless the
  root comes up again below itself.
-/

namespace HtmlMinify

/-- A forest of contents with the ids of their nodes. -/
abbrev NumberedForest := Forest (NodeId × Content)

/-- Nothing is found exactly if the keys are distinct and none was seen before. -/
theorem Attributes.duplicateAfter?_eq_none_iff {seen : Std.HashSet String}
    {items : List Attribute} :
    duplicateAfter? seen items = none ↔
      (items.map (·.key)).Nodup ∧ ∀ a ∈ items, seen.contains a.key = false := by
  induction items generalizing seen with
  | nil => simp [duplicateAfter?]
  | cons a items ih =>
    rw [duplicateAfter?, List.map_cons, List.nodup_cons]
    split
    · next hseen =>
      refine ⟨(nomatch ·), fun ⟨_, hunseen⟩ => ?_⟩
      rw [hunseen a List.mem_cons_self] at hseen
      cases hseen
    · next hnew =>
      rw [Bool.not_eq_true] at hnew
      rw [ih]
      constructor
      · rintro ⟨hnodup, hunseen⟩
        have hapart (b : Attribute) (hb : b ∈ items) :
            a.key ≠ b.key ∧ seen.contains b.key = false := by
          simpa [Std.HashSet.contains_insert] using hunseen b hb
        refine ⟨⟨fun hmem => ?_, hnodup⟩, fun b hb => ?_⟩
        · obtain ⟨b, hb, hkey⟩ := List.mem_map.mp hmem
          exact (hapart b hb).1 hkey.symm
        · rcases List.mem_cons.mp hb with rfl | hb
          · exact hnew
          · exact (hapart b hb).2
      · rintro ⟨⟨hnot, hnodup⟩, hunseen⟩
        exact ⟨hnodup, fun b hb => contains_insert_key hnot (hunseen b (by simp [hb])) hb⟩

/-- **Distinct keys are found to be so**, and no others are. -/
theorem Attributes.firstDuplicate?_eq_none_iff {as : Attributes} :
    as.firstDuplicate? = none ↔ (as.toList.map (·.key)).Nodup := by
  rw [firstDuplicate?, duplicateAfter?_eq_none_iff]
  simp

namespace Forest

/-- The ids of the roots. -/
def ids (f : NumberedForest) : List NodeId :=
  f.roots.map (·.1)

/-- The forest without ids. -/
def contents (f : NumberedForest) : Forest Content :=
  f.map (·.2)

/-- The number of nodes on the longest way down. -/
def levels {α : Type} : Forest α → Nat
  | nil => 0
  | node _ children siblings => max (children.levels + 1) siblings.levels

@[simp]
theorem ids_nil : ids nil = [] := rfl

@[simp]
theorem ids_node (id : NodeId) (c : Content) (children siblings : NumberedForest) :
    ids (node (id, c) children siblings) = id :: siblings.ids := rfl

@[simp]
theorem contents_nil : contents nil = nil := rfl

@[simp]
theorem contents_node (id : NodeId) (c : Content) (children siblings : NumberedForest) :
    contents (node (id, c) children siblings) = node c children.contents siblings.contents := rfl

/-- Nothing has no contents. -/
theorem contents_eq_nil_iff {f : NumberedForest} : f.contents = nil ↔ f = nil := by
  cases f with
  | nil => simp
  | node label children siblings => simp [contents, map]

/-- Nothing has no roots. -/
theorem ids_eq_nil_iff {f : NumberedForest} : f.ids = [] ↔ f = nil := by
  cases f with
  | nil => simp
  | node label children siblings => simp [ids, roots]

/-- A forest has no more levels than nodes. -/
theorem levels_le_size {α : Type} (f : Forest α) : f.levels ≤ f.size := by
  induction f with
  | nil => exact Nat.le_refl 0
  | node label children siblings ihc ihs =>
    rw [levels, size]
    omega

/-- The forest with its nodes numbered from `start` in document order. -/
def number (start : NodeId) : Forest Content → NumberedForest
  | nil => nil
  | node c children siblings =>
    node (start, c) (children.number (start + 1)) (siblings.number (start + 1 + children.size))

/-- Numbering a forest gives its roots the ids of its layout. -/
theorem ids_number (start : NodeId) (f : Forest Content) :
    (f.number start).ids = f.rootIds start := by
  induction f generalizing start with
  | nil => rfl
  | node c children siblings _ ih => rw [number, ids_node, rootIds, ih]

/-- Numbering a forest does not change what it holds. -/
theorem contents_number (start : NodeId) (f : Forest Content) :
    (f.number start).contents = f := by
  induction f generalizing start with
  | nil => rfl
  | node c children siblings ihc ihs => rw [number, contents_node, ihc, ihs]

/-- Numbering a forest does not change its levels. -/
theorem levels_number (start : NodeId) (f : Forest Content) :
    (f.number start).levels = f.levels := by
  induction f generalizing start with
  | nil => rfl
  | node c children siblings ihc ihs => rw [number, levels, levels, ihc, ihs]

/-- The layout of a forest has one entry for each node. -/
theorem length_layout (parent : Option NodeId) (start : NodeId) (f : Forest Content) :
    (f.layout parent start).length = f.size := by
  induction f generalizing parent start with
  | nil => rfl
  | node c children siblings ihc ihs =>
    rw [layout, List.length_cons, List.length_append, ihc, ihs, size]
    omega

/-- The attributes of each element have distinct keys, and void elements have no children. -/
def Valid : Forest Content → Prop
  | nil => True
  | node c children siblings =>
    (c.isElement = true → (c.attributes.toList.map (·.key)).Nodup) ∧
      (c.isVoid = true → children = nil) ∧ children.Valid ∧ siblings.Valid

instance instDecidableValid : (f : Forest Content) → Decidable f.Valid
  | nil => inferInstanceAs (Decidable True)
  | node _ children siblings =>
    have := instDecidableValid children
    have := instDecidableValid siblings
    inferInstanceAs (Decidable ((_ → _) ∧ (_ → _) ∧ _ ∧ _))

/-- The nodes of a forest below `parent` that a walk meets which enters some of them. -/
def walk (enter : Node → Bool) : Option NodeId → NumberedForest → List (NodeId × Node)
  | _, nil => []
  | parent, node (id, c) children siblings =>
    let here : Node := { toContent := c, parent, children := children.ids }
    (id, here) :: ((if enter here then children.walk enter (some id) else []) ++
      siblings.walk enter parent)

end Forest

namespace Document

variable {doc : Document} {parent : Option NodeId}

/-- The forest is what the document shows below `parent`. -/
def Shows (doc : Document) : Option NodeId → NumberedForest → Prop
  | _, .nil => True
  | parent, .node (id, c) children siblings =>
    doc.nodes[id]? = some { toContent := c, parent, children := children.ids } ∧
      doc.Shows (some id) children ∧ doc.Shows parent siblings

theorem node_of_getElem? {id : NodeId} {node : Node} (h : doc.nodes[id]? = some node) :
    doc.node id = .ok node := by
  rw [Document.node, h]

/-! ## Reading off -/

/-- **The trees of a document are those it shows.** -/
theorem trees_of_shows {f : NumberedForest} (h : doc.Shows parent f) {levels : Nat}
    (hlevels : f.levels ≤ levels) : doc.trees levels f.ids = .ok f.contents := by
  induction f generalizing parent levels with
  | nil => cases levels <;> rfl
  | node label children siblings ihc ihs =>
    obtain ⟨id, c⟩ := label
    obtain ⟨hnode, hchildren, hsiblings⟩ := h
    rw [Forest.levels] at hlevels
    obtain ⟨below, rfl⟩ : ∃ below, levels = below + 1 := ⟨levels - 1, by omega⟩
    have hbelow : doc.trees below children.ids = _ := ihc hchildren (by omega)
    have hbeside : doc.trees (below + 1) siblings.ids = _ := ihs hsiblings (by omega)
    rw [trees] at hbeside
    rw [trees, Forest.ids_node, treeLevel, node_of_getElem? hnode, Forest.contents_node]
    simp only [bind, Except.bind, hbelow, hbeside]
    rfl

/-- The tag of the element that is shown above a node. -/
def tagAbove (doc : Document) (parent : Option NodeId) : Option String :=
  (parent.bind (doc.nodes[·]?)).bind (·.tag?)

/-- A node that is shown is written with the tag around it. -/
theorem placed_of_shows (c : Content) (children : NumberedForest) :
    doc.placed { toContent := c, parent, children := children.ids } =
      c.place (doc.tagAbove parent) (decide (children.contents = .nil)) := by
  have hempty : children.ids.isEmpty = decide (children.contents = .nil) := by
    rw [Bool.eq_iff_iff, List.isEmpty_iff, decide_eq_true_iff, Forest.ids_eq_nil_iff,
      Forest.contents_eq_nil_iff]
  rw [placed, hempty]
  rfl

/-- A node's next sibling is found if it is shown. -/
theorem exists_mapM_head? {f : NumberedForest} (h : doc.Shows parent f) :
    ∃ next, f.ids.head?.mapM doc.node = .ok next := by
  cases f with
  | nil => exact ⟨none, rfl⟩
  | node label children siblings =>
    obtain ⟨id, c⟩ := label
    refine ⟨some { toContent := c, parent, children := children.ids }, ?_⟩
    rw [Forest.ids_node, List.head?_cons]
    change (doc.node id).map some = _
    rw [node_of_getElem? h.1]
    rfl

/-- **The outline of a document is that of the forest it shows.** -/
theorem outlines_of_shows {f : NumberedForest} (h : doc.Shows parent f) {levels : Nat}
    (hlevels : f.levels ≤ levels) :
    doc.outlines levels f.ids = .ok (f.contents.place (doc.tagAbove parent)) := by
  induction f generalizing parent levels with
  | nil => cases levels <;> rfl
  | node label children siblings ihc ihs =>
    obtain ⟨id, c⟩ := label
    obtain ⟨hnode, hchildren, hsiblings⟩ := h
    rw [Forest.levels] at hlevels
    obtain ⟨below, rfl⟩ : ∃ below, levels = below + 1 := ⟨levels - 1, by omega⟩
    have hbelow : doc.outlines below children.ids = _ := ihc hchildren (by omega)
    have hbeside : doc.outlines (below + 1) siblings.ids = _ := ihs hsiblings (by omega)
    have habove : doc.tagAbove (some id) = c.tag? := by
      simp only [tagAbove, Option.bind_some, hnode]
    rw [outlines] at hbeside
    rw [habove] at hbelow
    obtain ⟨next, hnext⟩ := exists_mapM_head? hsiblings
    have hwrites : writesChildren { toContent := c, parent, children := children.ids } =
        writesChildren { toContent := c } := rfl
    rw [outlines, Forest.ids_node, outlineLevel, node_of_getElem? hnode, Forest.contents_node,
      Forest.place]
    simp only [bind, Except.bind, hnext, hwrites, hbelow, hbeside, placed_of_shows]
    by_cases hc : writesChildren { toContent := c } = true
    · rw [if_pos hc, if_pos hc]
      rfl
    · rw [if_neg hc, if_neg hc]
      rfl

/-! ## Walks -/

/-- **A walk meets the nodes that the document shows**, if each passes the check of the walk. -/
theorem visit_of_shows (tour : Tour) {f : NumberedForest} (h : doc.Shows parent f) {levels : Nat}
    (hlevels : f.levels ≤ levels)
    (hcheck : ∀ met ∈ f.walk tour.enter parent, tour.check met.1 met.2 = .ok ()) :
    doc.visit tour levels f.ids = .ok (f.walk tour.enter parent) := by
  induction f generalizing parent levels with
  | nil => cases levels <;> rfl
  | node label children siblings ihc ihs =>
    obtain ⟨id, c⟩ := label
    obtain ⟨hnode, hchildren, hsiblings⟩ := h
    rw [Forest.levels] at hlevels
    rw [Forest.walk] at hcheck
    obtain ⟨below, rfl⟩ : ∃ below, levels = below + 1 := ⟨levels - 1, by omega⟩
    have hhere := hcheck _ List.mem_cons_self
    have hbeside : doc.visit tour (below + 1) siblings.ids = _ :=
      ihs hsiblings (by omega) fun met hmet => hcheck met (by simp [hmet])
    rw [visit] at hbeside
    rw [visit, Forest.ids_node, visitLevel, node_of_getElem? hnode, Forest.walk]
    simp only [bind, Except.bind, hhere, hbeside]
    by_cases henter : tour.enter { toContent := c, parent, children := children.ids } = true
    · rw [if_pos henter] at hcheck
      have hbelow : doc.visit tour below children.ids = _ :=
        ihc hchildren (by omega) fun met hmet => hcheck met (by simp [hmet])
      rw [if_pos henter, if_pos henter, hbelow]
      rfl
    · rw [if_neg henter, if_neg henter]
      rfl

/-! ## Layouts -/

/-- A document with the layout of a forest in its table shows the forest. -/
theorem shows_of_layout {f : Forest Content} {start : NodeId}
    (h : ∀ i, i < f.size → doc.nodes[start + i]? = (f.layout parent start)[i]?) :
    doc.Shows parent (f.number start) := by
  induction f generalizing parent start with
  | nil => trivial
  | node c children siblings ihc ihs =>
    rw [Forest.size] at h
    have hchildren := Forest.length_layout (some start) (start + 1) children
    refine ⟨?_, ihc fun i hi => ?_, ihs fun i hi => ?_⟩
    · have := h 0 (by omega)
      rw [Forest.ids_number]
      exact this
    · have := h (1 + i) (by omega)
      rw [Nat.add_assoc, this, Forest.layout, Nat.add_comm 1 i, List.getElem?_cons_succ,
        List.getElem?_append_left (by omega)]
    · have := h (1 + children.size + i) (by omega)
      rw [Nat.add_assoc, Nat.add_assoc, ← Nat.add_assoc 1, this, Forest.layout,
        show 1 + children.size + i = children.size + i + 1 by omega, List.getElem?_cons_succ,
        List.getElem?_append_right (by omega), hchildren, Nat.add_sub_cancel_left]

/-- The root over a forest, with all nodes numbered. -/
def numbered (f : Forest Content) : NumberedForest :=
  Forest.number 0 (.node .document f .nil)

/-- **A document that was laid out from a forest shows it.** -/
theorem shows_ofForest (f : Forest Content) : (ofForest f).Shows none (numbered f) := by
  refine shows_of_layout fun i _ => ?_
  rw [Nat.zero_add, ofForest, List.getElem?_toArray]

/-- The document of a forest has one node more, its root. -/
theorem size_ofForest (f : Forest Content) : (ofForest f).size = f.size + 1 := by
  rw [size, ofForest, List.size_toArray, Forest.length_layout, Forest.size, Forest.size]
  omega

/-- **The tree of the document of a forest is the forest**, below a document node. -/
theorem tree_ofForest (f : Forest Content) :
    (ofForest f).tree = .ok (.node .document f .nil) := by
  have hlevels : (numbered f).levels ≤ (ofForest f).maxLevels := by
    have hle := Forest.levels_le_size (Forest.node Content.document f .nil)
    rw [Forest.size, Forest.size] at hle
    rw [numbered, Forest.levels_number, maxLevels, size_ofForest]
    omega
  have htrees := trees_of_shows (shows_ofForest f) hlevels
  rwa [numbered, Forest.contents_number, Forest.ids_number] at htrees

/-! ## Checked documents -/

/-- A node that is found is in the table. -/
theorem getElem?_of_node {id : NodeId} {node : Node} (h : doc.node id = .ok node) :
    doc.nodes[id]? = some node := by
  unfold Document.node at h
  split at h
  · next hnode =>
    cases h
    exact hnode
  · cases h

/-- Reading a level of the tree reads its first node, all below it, and the rest. -/
theorem treeLevel_cons_eq_ok {below : List NodeId → Except DocumentError (Forest Content)}
    {id : NodeId} {ids : List NodeId} {t : Forest Content}
    (h : doc.treeLevel below (id :: ids) = .ok t) :
    ∃ node children siblings, doc.nodes[id]? = some node ∧ below node.children = .ok children ∧
      doc.treeLevel below ids = .ok siblings ∧ t = .node node.toContent children siblings := by
  rw [treeLevel] at h
  cases hnode : doc.node id with
  | error e => simp [hnode, bind, Except.bind] at h
  | ok node =>
    cases hbelow : below node.children with
    | error e => simp [hnode, hbelow, bind, Except.bind] at h
    | ok children =>
      cases hbeside : doc.treeLevel below ids with
      | error e => simp [hnode, hbelow, hbeside, bind, Except.bind] at h
      | ok siblings =>
        refine ⟨node, children, siblings, getElem?_of_node hnode, hbelow, rfl, ?_⟩
        simp only [hnode, hbelow, hbeside, bind, Except.bind] at h
        exact (Except.ok.inj h).symm

/-- What a walk over all nodes has checked of a node: the node itself, its children, and the nodes
after it. -/
theorem visitLevel_cons_eq_ok {check : NodeId → Node → Except DocumentError Unit}
    {below : List NodeId → Except DocumentError (List (NodeId × Node))} {id : NodeId}
    {ids : List NodeId} {met : List (NodeId × Node)} {node : Node}
    (hnode : doc.nodes[id]? = some node)
    (h : doc.visitLevel { check } below (id :: ids) = .ok met) :
    check id node = .ok () ∧ (∃ inner, below node.children = .ok inner) ∧
      ∃ after, doc.visitLevel { check } below ids = .ok after := by
  rw [visitLevel, node_of_getElem? hnode] at h
  cases hcheck : check id node with
  | error e => simp [hcheck, bind, Except.bind] at h
  | ok _ =>
    cases hbelow : below node.children with
    | error e => simp [hcheck, hbelow, bind, Except.bind] at h
    | ok inner =>
      cases hbeside : doc.visitLevel { check } below ids with
      | error e => simp [hcheck, hbelow, hbeside, bind, Except.bind] at h
      | ok after => exact ⟨rfl, ⟨inner, rfl⟩, ⟨after, rfl⟩⟩

/-- Links that pass the check go both ways. -/
theorem checkLinks_eq_ok {id : NodeId} {children : List NodeId}
    (h : doc.checkLinks id children = .ok ()) :
    ∀ child ∈ children, ∃ node, doc.nodes[child]? = some node ∧ node.parent = some id := by
  induction children with
  | nil => simp
  | cons child rest ih =>
    rw [checkLinks] at h
    cases hnode : doc.node child with
    | error e => simp [hnode, bind, Except.bind] at h
    | ok node =>
      simp only [hnode, bind, Except.bind] at h
      split at h
      · next hparent =>
        intro other hother
        rcases List.mem_cons.mp hother with rfl | hother
        · exact ⟨node, getElem?_of_node hnode, hparent⟩
        · exact ih h other hother
      · cases h

/-- Children of a checked node link back to it. -/
theorem parent_of_checkNode {id : NodeId} {node : Node} (h : doc.checkNode id node = .ok ()) :
    ∀ child ∈ node.children, ∃ node', doc.nodes[child]? = some node' ∧ node'.parent = some id := by
  unfold checkNode at h
  split at h
  · cases h
  · split at h
    · cases h
    · exact checkLinks_eq_ok h

/-- What is shown passes the check of its links. -/
theorem checkLinks_of_shows {id : NodeId} {f : NumberedForest} (h : doc.Shows (some id) f) :
    doc.checkLinks id f.ids = .ok () := by
  induction f with
  | nil => rfl
  | node label children siblings _ ih =>
    obtain ⟨child, c⟩ := label
    rw [Forest.ids_node, checkLinks, node_of_getElem? h.1]
    simp only [bind, Except.bind, if_true]
    exact ih h.2.2

/-- A node that is shown passes its check, if its keys are distinct and it has children only if it
can. -/
theorem checkNode_of_shows {id : NodeId} {c : Content} {children : NumberedForest}
    (h : doc.Shows (some id) children)
    (hkeys : c.isElement = true → (c.attributes.toList.map (·.key)).Nodup)
    (hvoid : c.isVoid = true → children = .nil) :
    doc.checkNode id { toContent := c, parent, children := children.ids } = .ok () := by
  have hduplicate : (if c.isElement then c.attributes.firstDuplicate? else none) = none := by
    split
    · next helement => exact Attributes.firstDuplicate?_eq_none_iff.mpr (hkeys helement)
    · rfl
  have hempty : (c.isVoid && !children.ids.isEmpty) = false := by
    cases hc : c.isVoid with
    | false => rfl
    | true =>
      rw [hvoid hc]
      rfl
  unfold checkNode
  simp only [hduplicate, hempty, Bool.false_eq_true, if_false]
  exact checkLinks_of_shows h

/-- All nodes that are met in what is shown pass their checks. -/
theorem checkNode_of_mem_walk {f : NumberedForest} (h : doc.Shows parent f)
    (hvalid : f.contents.Valid) :
    ∀ met ∈ f.walk (fun _ => true) parent, doc.checkNode met.1 met.2 = .ok () := by
  induction f generalizing parent with
  | nil => simp [Forest.walk]
  | node label children siblings ihc ihs =>
    obtain ⟨id, c⟩ := label
    obtain ⟨_, hchildren, hsiblings⟩ := h
    obtain ⟨hkeys, hvoid, hbelow, hbeside⟩ := hvalid
    intro met hmet
    rw [Forest.walk] at hmet
    simp only [if_true, List.mem_cons, List.mem_append] at hmet
    rcases hmet with rfl | hmet | hmet
    · exact checkNode_of_shows hchildren hkeys fun hc => Forest.contents_eq_nil_iff.mp (hvoid hc)
    · exact ihc hchildren hbelow met hmet
    · exact ihs hsiblings hbeside met hmet

/-- A document passes its check if the forest it shows is valid. -/
theorem validate_of_shows {root : NodeId} {c : Content} {below : NumberedForest}
    (hroot : doc.root = some root) (h : doc.Shows parent (.node (root, c) below .nil))
    (hlevels : below.levels ≤ doc.size) (hvalid : (Forest.node c below.contents .nil).Valid) :
    doc.validate = .ok () := by
  have hle : (Forest.node (root, c) below .nil).levels ≤ doc.maxLevels := by
    rw [Forest.levels, maxLevels]
    exact Nat.max_le.mpr ⟨Nat.succ_le_succ hlevels, Nat.zero_le _⟩
  have hvisit := visit_of_shows { check := checkNode doc } h hle
    (checkNode_of_mem_walk h hvalid)
  unfold validate visitAll visitFrom
  rw [hroot]
  rw [Forest.ids_node, Forest.ids_nil] at hvisit
  simp only [hvisit]
  rfl

/-- A document has room for the levels of its forest. -/
theorem levels_numbered (f : Forest Content) : (f.number 1).levels ≤ (ofForest f).size := by
  rw [Forest.levels_number, size_ofForest]
  exact Nat.le_succ_of_le (Forest.levels_le_size f)

/-- A document that was laid out from a valid forest passes its check. -/
theorem validate_ofForest {f : Forest Content} (h : f.Valid) : (ofForest f).validate = .ok () := by
  refine validate_of_shows rfl (shows_ofForest f) (levels_numbered f) ?_
  rw [Forest.contents_number]
  exact ⟨fun hc => absurd hc (by decide), fun hc => absurd hc (by decide), h, trivial⟩

/-- A way down from the root, innermost first, along which each node links to the one above. -/
structure Path (doc : Document) (root : NodeId) (path : List NodeId) : Prop where
  nodup : path.Nodup
  bound : ∀ id ∈ path, id < doc.size
  above : ∀ id ∈ path, id ≠ root → ∃ node parent,
    doc.nodes[id]? = some node ∧ node.parent = some parent ∧ parent ∈ path ∧
      path.head? ≠ some parent

/-- A way down meets no node twice, so it is no longer than the table. -/
theorem Path.length_le {root : NodeId} {path : List NodeId} (h : doc.Path root path) :
    path.length ≤ doc.size := by
  have hsub : path ⊆ List.range doc.size := fun id hid => List.mem_range.mpr (h.bound id hid)
  have hle := (h.nodup.subperm hsub).length_le
  rwa [List.length_range] at hle

/-- A way down goes on to a node that links back, unless that is the root. -/
theorem Path.cons {root id : NodeId} {path : List NodeId} (h : doc.Path root path) {node : Node}
    (hnode : doc.nodes[id]? = some node) (hparent : node.parent = path.head?)
    (hne : path ≠ []) (hroot : id ≠ root) : doc.Path root (id :: path) := by
  obtain ⟨last, rest, rfl⟩ := List.exists_cons_of_ne_nil hne
  rw [List.head?_cons] at hparent
  have hnew : id ∉ last :: rest := by
    intro hmem
    obtain ⟨node', parent, hnode', hparent', _, hhead⟩ := h.above id hmem hroot
    rw [hnode] at hnode'
    cases hnode'
    rw [hparent] at hparent'
    exact hhead hparent'
  have hbound : id < doc.size := (Array.getElem?_eq_some_iff.mp hnode).1
  refine ⟨List.nodup_cons.mpr ⟨hnew, h.nodup⟩, ?_, ?_⟩
  · intro other hother
    rcases List.mem_cons.mp hother with rfl | hother
    · exact hbound
    · exact h.bound other hother
  · intro other hother hother'
    rcases List.mem_cons.mp hother with rfl | hother
    · refine ⟨node, last, hnode, hparent, by simp, ?_⟩
      rw [List.head?_cons]
      rintro ⟨rfl⟩
      exact hnew (by simp)
    · obtain ⟨node', parent, hnode', hparent', hmem, _⟩ := h.above other hother hother'
      refine ⟨node', parent, hnode', hparent', List.mem_cons_of_mem id hmem, ?_⟩
      rw [List.head?_cons]
      rintro ⟨rfl⟩
      exact hnew hmem

/-- Below a way down from the root a checked document shows its trees, if the root does not come up
in them. -/
theorem exists_shows_of_path {root : NodeId} {levels : Nat} {path ids : List NodeId}
    {met : List (NodeId × Node)} {t : Forest Content} (hpath : doc.Path root path) (hne : path ≠ [])
    (hlevels : levels + path.length = doc.size + 1)
    (hroot : ∀ node, doc.nodes[root]? = some node → node.kind = .document)
    (hlinks : ∀ id ∈ ids, ∃ node, doc.nodes[id]? = some node ∧ node.parent = path.head?)
    (hvisit : doc.visit { check := checkNode doc } levels ids = .ok met)
    (htrees : doc.trees levels ids = .ok t) (ht : ∀ c ∈ t.toList, c.kind ≠ .document) :
    ∃ f : NumberedForest, f.ids = ids ∧ doc.Shows path.head? f ∧ f.contents = t ∧
      f.levels ≤ levels := by
  induction levels generalizing path ids met t with
  | zero =>
    have hle := hpath.length_le
    omega
  | succ levels ihlevels =>
    rw [visit] at hvisit
    rw [trees] at htrees
    induction ids generalizing met t with
    | nil =>
      cases htrees
      exact ⟨.nil, rfl, trivial, rfl, Nat.zero_le _⟩
    | cons id ids ihids =>
      obtain ⟨node, children, siblings, hnode, hbelow, hbeside, rfl⟩ := treeLevel_cons_eq_ok htrees
      obtain ⟨hcheck, ⟨inner, hinner⟩, after, hafter⟩ := visitLevel_cons_eq_ok hnode hvisit
      obtain ⟨node', hnode', hparent⟩ := hlinks id (by simp)
      rw [hnode] at hnode'
      cases hnode'
      have hid : id ≠ root := by
        rintro rfl
        exact ht node.toContent (by simp [Forest.toList]) (hroot node hnode)
      have hdown := hpath.cons hnode hparent hne hid
      obtain ⟨below, hids, hshows, rfl, hbelow'⟩ := ihlevels hdown (by simp)
        (by simp only [List.length_cons]; omega) (parent_of_checkNode hcheck) hinner hbelow
        (fun c hc => ht c (by simp [Forest.toList, hc]))
      obtain ⟨beside, rfl, hshows', rfl, hbeside'⟩ := ihids
        (fun other hother => hlinks other (by simp [hother])) hafter hbeside
        (fun c hc => ht c (by simp [Forest.toList, hc]))
      refine ⟨.node (id, node.toContent) below beside, rfl, ⟨?_, hshows, hshows'⟩, rfl, ?_⟩
      · rw [hnode, ← hparent, hids]
      · rw [Forest.levels]
        omega

/-- **A document that passes its check shows its tree**, if only the root is a document node. -/
theorem exists_shows_of_validate {c : Content} {f : Forest Content} (hvalid : doc.validate = .ok ())
    (htree : doc.tree = .ok (.node c f .nil)) (hc : c.kind = .document)
    (hf : ∀ c ∈ f.toList, c.kind ≠ .document) :
    ∃ (root : NodeId) (below : NumberedForest) (parent : Option NodeId), doc.root = some root ∧
      doc.Shows parent (.node (root, c) below .nil) ∧ below.contents = f ∧
      below.levels ≤ doc.size := by
  cases hroot : doc.root with
  | none => simp [tree, hroot, maxLevels, trees, treeLevel] at htree
  | some root =>
    rw [tree, hroot, maxLevels, trees] at htree
    obtain ⟨node, children, siblings, hnode, hbelow, _, heq⟩ := treeLevel_cons_eq_ok htree
    cases heq
    have hmet : ∃ met, doc.visit { check := checkNode doc } (doc.size + 1) [root] = .ok met := by
      unfold validate visitAll visitFrom at hvalid
      rw [hroot] at hvalid
      cases hvisit : doc.visit { check := checkNode doc } (doc.size + 1) [root] with
      | error e => simp [maxLevels, hvisit, bind, Except.bind] at hvalid
      | ok met => exact ⟨met, rfl⟩
    obtain ⟨met, hmet⟩ := hmet
    obtain ⟨hcheck, ⟨inner, hinner⟩, _⟩ := visitLevel_cons_eq_ok hnode hmet
    have hbound : root < doc.size := (Array.getElem?_eq_some_iff.mp hnode).1
    have hpath : doc.Path root [root] := by
      refine ⟨by simp, by simpa using hbound, ?_⟩
      intro id hid hne
      exact absurd (List.mem_singleton.mp hid) hne
    obtain ⟨below, hids, hshows, hcontents, hlevels⟩ := exists_shows_of_path hpath (by simp) rfl
      (fun node' hnode' => by
        rw [hnode] at hnode'
        cases hnode'
        exact hc)
      (parent_of_checkNode hcheck) hinner hbelow hf
    refine ⟨root, below, node.parent, rfl, ⟨?_, hshows, trivial⟩, hcontents, hlevels⟩
    rw [hnode, hids]

end Document

end HtmlMinify
