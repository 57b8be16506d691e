import HtmlMinify.Markup.Build
import HtmlMinify.Proofs.Builder
import HtmlMinify.Proofs.Edits

/-!
# A draft lays out the tree under construction

A draft of a document is a table of nodes and a stack of ids, a builder a tree that is cut along its
open elements. Both take the same tokens. At every moment the table of the draft is the layout of the
builder's tree, and the stack holds the ids that the open elements have there. For the way from the
document node down to the innermost open element is the rightmost one: what is added at its end comes
last in document order, so it gets the next free id, and no other id changes.

Hence no change of the table fails. The node that takes what comes next is in the table and is no void
element, and so is its last child.

## Main statements

* `Frame.layout_plug`: the layout of a tree, read off along the way to its innermost open element.
* `Edit.apply_addBelow`: what adding a node does to a table.
* `Draft.Shows.step`: a token makes of the draft what it makes of the builder, or both refuse it.
* `Draft.Shows.run`: so do all tokens of a page.
* `Document.parse_eq_map`: the document of a page is the layout of its forest.
-/

namespace HtmlMinify

/-! ## Layouts, tree after tree -/

namespace Forest

variable {α : Type}

/-- The roots of a second forest are numbered after all nodes of the first. -/
theorem rootIds_append (start : NodeId) (f g : Forest α) :
    (f ++ g).rootIds start = f.rootIds start ++ g.rootIds (start + f.size) := by
  induction f generalizing start with
  | nil => rfl
  | node label children siblings _ ih =>
    rw [node_append, rootIds, rootIds, ih, size, List.cons_append]
    simp only [Nat.add_assoc]

/-- A second forest is laid out after the first. -/
theorem layout_append (parent : Option NodeId) (start : NodeId) (f g : Forest Content) :
    (f ++ g).layout parent start = f.layout parent start ++ g.layout parent (start + f.size) := by
  induction f generalizing start with
  | nil => rfl
  | node c children siblings _ ih =>
    rw [node_append, layout, layout, ih, size, List.cons_append, List.append_assoc]
    simp only [Nat.add_assoc]

/-- Trees in front of a forest are a forest in front of it. -/
theorem prependReversed_eq_append (earlier : List (α × Forest α)) (after : Forest α) :
    prependReversed earlier after = prependReversed earlier nil ++ after :=
  prependReversed_append earlier nil after

end Forest

/-! ## The way to the innermost open element

A way is a list of frames, innermost first. The ids of its frames are the numbers of nodes that come
before them in document order.
-/

namespace Frame

/-- The children of the frame that have come. -/
def below (frame : Frame) : Forest Content :=
  .prependReversed frame.done .nil

/-- Number of nodes on the way and beside it. -/
def count : List Frame → Nat
  | [] => 0
  | frame :: outer => count outer + 1 + frame.below.size

/-- The ids of the frames on the way, innermost first. -/
def ids : List Frame → List NodeId
  | [] => []
  | _ :: outer => count outer :: ids outer

/-- The tree along the way, with `hole` after the last children of the innermost frame. -/
def plug : List Frame → Forest Content → Forest Content
  | [], hole => hole
  | frame :: outer, hole =>
    plug outer (.node frame.content (.prependReversed frame.done hole) .nil)

/-- The node of the innermost frame, with further children that are to come. -/
def entry (frame : Frame) (outer : List Frame) (more : List NodeId) : Node where
  toContent := frame.content
  parent := (ids outer).head?
  children := frame.below.rootIds (count outer + 1) ++ more

/-- The nodes on the way and beside it in document order, with further children of the innermost
frame that are to come. -/
def nodes : List Frame → List NodeId → List Node
  | [], _ => []
  | frame :: outer, more =>
    nodes outer [count outer] ++
      frame.entry outer more :: frame.below.layout (some (count outer)) (count outer + 1)

/-- There are as many nodes as are counted. -/
theorem length_nodes (path : List Frame) (more : List NodeId) :
    (nodes path more).length = count path := by
  induction path generalizing more with
  | nil => rfl
  | cons frame outer ih =>
    rw [nodes, List.length_append, ih, List.length_cons, Forest.length_layout, count]
    omega

/-- **The layout of a tree**, read off along the way to its innermost open element: first the nodes
on the way and beside it, then what is to come. -/
theorem layout_plug (path : List Frame) (hole : Forest Content) :
    (plug path hole).layout none 0 =
      nodes path (hole.rootIds (count path)) ++ hole.layout (ids path).head? (count path) := by
  induction path generalizing hole with
  | nil => rfl
  | cons frame outer ih =>
    have hcount : count outer + 1 + frame.below.size = count (frame :: outer) := rfl
    rw [plug, ih, Forest.rootIds, Forest.rootIds, Forest.layout, Forest.layout, List.append_nil,
      Forest.prependReversed_eq_append, ← below, Forest.rootIds_append, Forest.layout_append, hcount,
      nodes, entry, List.append_assoc, List.cons_append]
    rfl

/-- The last finished child of the innermost frame has an entry of its own. Its id is the last of the
frame's children, and another content in its place changes that entry only. -/
theorem exists_last (content last : Content) (below : Forest Content) (earlier : List Tree)
    (outer : List Frame) :
    ∃ (before after : List Node) (node : Node),
      (entry ⟨content, (last, below) :: earlier⟩ outer []).children.getLast? =
        some before.length ∧
      node.toContent = last ∧
      ∀ last', nodes (⟨content, (last', below) :: earlier⟩ :: outer) [] =
        before ++ { node with toContent := last' } :: after := by
  let start := count outer + 1
  let siblings : Forest Content := .prependReversed earlier .nil
  let id := start + siblings.size
  have hbelow (c : Content) :
      Frame.below ⟨content, (c, below) :: earlier⟩ = siblings ++ .node c below .nil :=
    Forest.prependReversed_eq_append earlier _
  have hchildren (c : Content) :
      (Frame.below ⟨content, (c, below) :: earlier⟩).rootIds start ++ [] =
        siblings.rootIds start ++ [id] := by
    rw [hbelow, Forest.rootIds_append, Forest.rootIds, Forest.rootIds, List.append_nil]
  let owner : Node := entry ⟨content, (last, below) :: earlier⟩ outer []
  let before : List Node :=
    nodes outer [count outer] ++ owner :: siblings.layout (some (count outer)) start
  have hlength : before.length = id := by
    rw [List.length_append, length_nodes, List.length_cons, Forest.length_layout]
    simp only [id, start]
    omega
  refine ⟨before, below.layout (some id) (id + 1),
    { toContent := last, parent := some (count outer), children := below.rootIds (id + 1) },
    ?_, rfl, fun last' => ?_⟩
  · rw [hlength, entry, hchildren, List.getLast?_concat]
  · rw [nodes, entry, hchildren, hbelow, Forest.layout_append, Forest.layout, Forest.layout,
      List.append_nil, ← hchildren last, List.append_assoc, List.cons_append]
    rfl

end Frame

namespace Builder

/-- The way from the document node to the innermost open element, innermost first. -/
def path (b : Builder) : List Frame :=
  b.frames ++ [{ content := .document, done := b.done }]

/-- The way has an innermost frame, the one that takes what comes next. -/
theorem exists_path_eq (b : Builder) : ∃ frame outer, b.path = frame :: outer ∧
    b.children = frame.done ∧
    (∀ change, (b.onChildren change).path = { frame with done := change frame.done } :: outer) ∧
    (frame ∈ b.frames ∨ frame.content = .document) := by
  obtain ⟨frames, done, quirks, decided⟩ := b
  cases frames with
  | nil => exact ⟨_, [], rfl, rfl, fun _ => rfl, .inr rfl⟩
  | cons frame outer =>
    exact ⟨frame, _, rfl, rfl, fun _ => rfl, .inl List.mem_cons_self⟩

/-- An element that ends takes its place among the children of the one around it. -/
theorem path_insert_of_frames {b : Builder} {frame : Frame} {outer : List Frame}
    (h : b.frames = frame :: outer) :
    let closed := ({ b with frames := outer } : Builder).insert (frame.content, frame.below)
    Frame.plug closed.path .nil = Frame.plug b.path .nil ∧
      Frame.ids closed.path = (Frame.ids b.path).drop 1 := by
  obtain ⟨frames, done, quirks, decided⟩ := b
  cases h
  cases outer <;> exact ⟨rfl, rfl⟩

/-- Ending elements changes neither the tree nor the ids of those that stay open. -/
theorem path_close {n : Nat} {b : Builder} (h : n ≤ b.frames.length) :
    Frame.plug (b.close n).path .nil = Frame.plug b.path .nil ∧
      Frame.ids (b.close n).path = (Frame.ids b.path).drop n := by
  induction n generalizing b with
  | zero => exact ⟨rfl, rfl⟩
  | succ n ih =>
    cases hframes : b.frames with
    | nil =>
      rw [hframes] at h
      cases h
    | cons frame outer =>
      obtain ⟨htree, hids⟩ := path_insert_of_frames hframes
      have hlength : n ≤ (({ b with frames := outer } : Builder).insert
          (frame.content, frame.below)).frames.length := by
        rw [length_frames, openTags_insert, ← length_frames]
        rw [hframes, List.length_cons] at h
        exact Nat.le_of_succ_le_succ h
      rw [close]
      simp only [hframes]
      obtain ⟨htree', hids'⟩ := ih hlength
      refine ⟨htree'.trans htree, hids'.trans ?_⟩
      rw [hids, List.drop_drop, Nat.add_comm]

/-- The tree along the way is the forest of the builder below the document node. -/
theorem plug_path (b : Builder) : Frame.plug b.path .nil = .node .document b.forest .nil := by
  rw [← (path_close (Nat.le_refl b.frames.length)).1, path, frames_close_length]
  rfl

/-- The document that the tree so far is laid out as. -/
def document (b : Builder) : Document where
  nodes := (Frame.nodes b.path []).toArray
  root := some 0

/-- Its nodes are the layout of the tree along the way. -/
theorem document_eq_layout (b : Builder) :
    b.document = ⟨((Frame.plug b.path .nil).layout none 0).toArray, some 0⟩ := by
  rw [Frame.layout_plug, Forest.layout, List.append_nil]
  rfl

/-- It is the layout of the forest. -/
theorem document_eq (b : Builder) : b.document = .ofForest b.forest := by
  rw [document_eq_layout, plug_path, Document.ofForest]

end Builder

/-! ## What changes of a table do -/

namespace Document

variable {doc : Document} {before after : List Node} {node : Node}

/-- The node after some others is found under their number. -/
theorem getElem?_of_toList (h : doc.nodes.toList = before ++ node :: after) :
    doc.nodes[before.length]? = some node := by
  rw [← Array.getElem?_toList, h, List.getElem?_append_right (Nat.le_refl _), Nat.sub_self]
  rfl

/-- Changing the node after some others. -/
theorem altered_of_toList (h : doc.nodes.toList = before ++ node :: after) (change : Node → Node) :
    doc.altered before.length change =
      { doc with nodes := (before ++ change node :: after).toArray } := by
  have hnodes : (doc.nodes.modify before.length change).toList = before ++ change node :: after := by
    rw [Array.toList_modify, h, List.modify_eq_take_drop, List.take_left, List.drop_left]
    rfl
  rw [altered, ← hnodes, Array.toArray_toList]

end Document

namespace Edit

open Document

variable {doc : Document} {before after : List Node} {owner : Node}

/-- **Adding a node below another** puts it at the end of the table, and its id at the end of the
children of the other, unless that is a void element. -/
theorem apply_addBelow (h : doc.nodes.toList = before ++ owner :: after)
    (hvoid : owner.isVoid = false) (c : Content) :
    (addBelow before.length c).apply doc =
      (.ok doc.size,
        { doc with
          nodes := (before ++ ({ owner with children := owner.children ++ [doc.size] } : Node) ::
            (after ++ [{ toContent := c, parent := some before.length }])).toArray }) := by
  have hsize : doc.size = (before ++ owner :: after).length := by
    rw [← h, Array.length_toList, size]
  let added : Node := { toContent := c }
  let linked : Node := { toContent := c, parent := some before.length }
  let doc₁ : Document := { doc with nodes := doc.nodes.push added }
  let doc₂ : Document := { doc with nodes := ((before ++ owner :: after) ++ [linked]).toArray }
  let doc₃ : Document :=
    { doc with
      nodes := (before ++ ({ owner with children := owner.children ++ [doc.size] } : Node) ::
        (after ++ [linked])).toArray }
  have hadd : (add c).apply doc = (.ok doc.size, doc₁) := rfl
  have hnodes₁ : doc₁.nodes.toList = (before ++ owner :: after) ++ added :: [] := by
    rw [Array.toList_push, h]
  have hnodes₂ : doc₂.nodes.toList = before ++ owner :: (after ++ [linked]) := by
    rw [List.toList_toArray, List.append_assoc, List.cons_append]
  -- the owner is looked up first, then the new node is linked to it, then it to the new node
  have howner : (Edit.node before.length).apply doc₁ = (.ok owner, doc₁) := by
    rw [List.append_assoc, List.cons_append] at hnodes₁
    exact apply_node (getElem?_of_toList hnodes₁)
  have hlink : (alter doc.size fun node => { node with parent := some before.length }).apply doc₁ =
      (.ok (), doc₂) := by
    rw [hsize, apply_alter (getElem?_of_toList hnodes₁), altered_of_toList hnodes₁]
  have hchild : (alter before.length fun node =>
      { node with children := node.children ++ [doc.size] }).apply doc₂ = (.ok (), doc₃) := by
    rw [apply_alter (getElem?_of_toList hnodes₂), altered_of_toList hnodes₂]
  have happend : (append before.length doc.size).apply doc₁ = (.ok (), doc₃) := by
    rw [append, apply_bind howner, hvoid]
    exact (apply_bind hlink _).trans hchild
  rw [addBelow, apply_bind hadd, apply_bind happend]
  rfl

/-- A text below a node whose last child is a text makes that one grow. -/
theorem apply_addTextBelow_of_text {parent last : NodeId} {node : Node}
    (howner : doc.nodes[parent]? = some owner) (hlast : owner.children.getLast? = some last)
    (hnode : doc.nodes[last]? = some node) (htext : node.isText = true) (value : String) :
    (addTextBelow parent value).apply doc =
      (.ok last, doc.altered last fun node => { node with value := node.value ++ value }) := by
  rw [addTextBelow, apply_bind (apply_node howner), hlast]
  simp only
  rw [apply_bind (apply_node hnode), if_pos htext, apply_bind (apply_alter hnode _)]
  rfl

/-- Any other text is a node of its own. -/
theorem addTextBelow_eq_addBelow {parent : NodeId} (howner : doc.nodes[parent]? = some owner)
    (hlast : ∀ last, owner.children.getLast? = some last →
      ∃ node, doc.nodes[last]? = some node ∧ node.isText = false) (value : String) :
    (addTextBelow parent value).apply doc =
      (addBelow parent (.leaf .text value)).apply doc := by
  rw [addTextBelow, apply_bind (apply_node howner)]
  cases hlast? : owner.children.getLast? with
  | none => rfl
  | some last =>
    obtain ⟨node, hnode, htext⟩ := hlast last hlast?
    simp only
    rw [apply_bind (apply_node hnode), htext]
    rfl

end Edit

/-! ## One token -/

namespace Draft

/-- The draft shows the tree under construction: its table is the layout of the tree, and its stack
holds the ids and tags of the open elements, none of them void. -/
structure Shows (d : Draft) (b : Builder) : Prop where
  doc_eq : d.doc = b.document
  ids_eq : d.opened.map (·.1) ++ [0] = Frame.ids b.path
  tags_eq : d.openTags = b.openTags
  quirks_eq : d.quirks = b.quirks
  decided_eq : d.decided = b.decided
  notVoid : ∀ tag ∈ b.openTags, Tag.isVoid tag = false

/-- A change of the document that succeeds changes the document of the draft only. -/
theorem edit_of_apply {α : Type} {d : Draft} {change : Edit α} {a : α} {doc : Document}
    (h : change.apply d.doc = (.ok a, doc)) : d.edit change = .ok (a, { d with doc }) := by
  rw [edit, h]

/-- Changes that do the same to the document do the same to the draft. -/
theorem edit_congr {α : Type} {d : Draft} {change change' : Edit α}
    (h : change.apply d.doc = change'.apply d.doc) : d.edit change = d.edit change' := by
  rw [edit, edit, h]

/-- A new draft shows an empty page. -/
theorem Shows.new : Shows {} {} :=
  ⟨rfl, rfl, rfl, rfl, rfl, fun _ hframe => nomatch hframe⟩

namespace Shows

variable {d : Draft} {b : Builder}

/-- What is known of quirks mode has no part in the tree. -/
theorem withMode (h : d.Shows b) (quirks decided : Bool) :
    ({ d with quirks, decided } : Draft).Shows { b with quirks, decided } :=
  ⟨h.doc_eq, h.ids_eq, h.tags_eq, rfl, rfl, h.notVoid⟩

/-- Both note the same of what a token says about quirks mode. -/
theorem observe (h : d.Shows b) (token : Token) : (d.observe token).Shows (b.observe token) := by
  have hdecides : ({ d with decided := true } : Draft).Shows { b with decided := true } :=
    ⟨h.doc_eq, h.ids_eq, h.tags_eq, h.quirks_eq, rfl, h.notVoid⟩
  cases token with
  | text value =>
    rw [Draft.observe, Builder.observe]
    split
    · exact h
    · exact hdecides
  | doctype value =>
    rw [Draft.observe, Builder.observe, h.decided_eq]
    split
    · exact h
    · exact h.withMode (Doctype.quirks value) true
  | startTag _ | endTag _ => exact hdecides
  | comment _ | cdata _ | instruction _ => exact h

/-- The stack has as many entries as elements are open. -/
theorem length_opened (h : d.Shows b) : d.opened.length = b.frames.length := by
  rw [Builder.length_frames, ← h.tags_eq, openTags, List.length_map]

/-- Ending elements takes them off the stack, and leaves the table as it is. -/
theorem closeTo (h : d.Shows b) (left : List String) : (d.closeTo left).Shows (b.closeTo left) := by
  have hle : b.frames.length - left.length ≤ b.frames.length := Nat.sub_le ..
  obtain ⟨htree, hids⟩ := Builder.path_close hle
  rw [Draft.closeTo, Builder.closeTo, h.length_opened]
  refine ⟨?_, ?_, ?_, ?_, ?_, ?_⟩
  · rw [Builder.document_eq_layout, htree, ← Builder.document_eq_layout]
    exact h.doc_eq
  · rw [hids, ← h.ids_eq, List.drop_append_of_le_length (by rwa [List.length_map, h.length_opened]),
      List.map_drop]
  · rw [Builder.openTags_close, ← h.tags_eq, openTags, openTags, List.map_drop]
  · rw [Builder.quirks_close]
    exact h.quirks_eq
  · rw [Builder.decided_close]
    exact h.decided_eq
  · intro tag htag
    rw [Builder.openTags_close] at htag
    exact h.notVoid tag (List.mem_of_mem_drop htag)

/-- The node that takes what comes next is the innermost on the way, and no void element. -/
theorem current_eq (h : d.Shows b) {frame : Frame} {outer : List Frame}
    (hpath : b.path = frame :: outer) : d.current = Frame.count outer := by
  have hids := h.ids_eq
  rw [hpath, Frame.ids] at hids
  unfold current
  cases hopened : d.opened with
  | nil =>
    rw [hopened] at hids
    exact (List.cons.inj hids).1
  | cons entry rest =>
    rw [hopened] at hids
    exact (List.cons.inj hids).1

/-- The innermost node on the way is no void element. -/
theorem isVoid_innermost (h : d.Shows b) {frame : Frame}
    (hframe : frame ∈ b.frames ∨ frame.content = .document) : frame.content.isVoid = false := by
  rcases hframe with hmem | hdocument
  · have hname := h.notVoid _ (List.mem_map_of_mem hmem)
    rw [Content.isVoid, hname, Bool.and_false]
  · rw [hdocument]
    rfl

/-- The table in the middle: the node that takes what comes next, and those before and after it. -/
theorem toList_nodes (h : d.Shows b) {frame : Frame} {outer : List Frame}
    (hpath : b.path = frame :: outer) :
    d.doc.nodes.toList = Frame.nodes outer [Frame.count outer] ++ frame.entry outer [] ::
      frame.below.layout (some (Frame.count outer)) (Frame.count outer + 1) := by
  rw [h.doc_eq, Builder.document, List.toList_toArray, hpath, Frame.nodes]

/-- **A node is added at the end of the tree under construction**, and nothing goes wrong. -/
theorem apply_addBelow (h : d.Shows b) (c : Content) :
    (Edit.addBelow d.current c).apply d.doc =
      (.ok (Frame.count b.path),
        ⟨((Frame.plug b.path (.node c .nil .nil)).layout none 0).toArray, some 0⟩) := by
  obtain ⟨frame, outer, hpath, -, -, hframe⟩ := b.exists_path_eq
  have hvoid : (frame.entry outer []).isVoid = false := h.isVoid_innermost hframe
  have hsize : d.doc.size = Frame.count b.path := by
    rw [h.doc_eq, Builder.document, Document.size, List.size_toArray, Frame.length_nodes]
  have hroot : d.doc.root = some 0 := by rw [h.doc_eq, Builder.document]
  have hadd := Edit.apply_addBelow (h.toList_nodes hpath) hvoid c
  rw [Frame.length_nodes, hsize, hroot] at hadd
  rw [h.current_eq hpath, hadd, Frame.layout_plug, hpath, Frame.nodes, Frame.entry, Frame.entry,
    List.append_nil, List.append_assoc, List.cons_append]
  rfl

/-- Changing the children of the innermost open element leaves the stack as it is. -/
theorem onChildren (h : d.Shows b) {change : List Tree → List Tree} {doc : Document}
    (hdoc : doc = (b.onChildren change).document) :
    ({ d with doc } : Draft).Shows (b.onChildren change) := by
  obtain ⟨frame, outer, hpath, -, hchanged, -⟩ := b.exists_path_eq
  have hids : Frame.ids (b.onChildren change).path = Frame.ids b.path := by
    rw [hchanged, hpath, Frame.ids, Frame.ids]
  have htags := b.openTags_onChildren change
  refine ⟨hdoc, hids ▸ h.ids_eq, htags ▸ h.tags_eq, ?_, ?_, htags ▸ h.notVoid⟩
  · rw [Builder.quirks_onChildren]
    exact h.quirks_eq
  · rw [Builder.decided_onChildren]
    exact h.decided_eq

/-- A node that is added becomes the last child of the innermost open element, or is open itself. -/
theorem add (h : d.Shows b) (c : Content) :
    ∃ id d', d.add c = .ok (id, d') ∧ d'.Shows (b.insert (c, .nil)) ∧
      (Tag.isVoid c.name = false →
        ({ d' with opened := (id, c.name) :: d'.opened } : Draft).Shows
          { b with frames := { content := c } :: b.frames }) := by
  obtain ⟨frame, outer, hpath, -, hinserted, -⟩ := b.exists_path_eq
  have htree : Frame.plug (b.insert (c, .nil)).path .nil =
      Frame.plug b.path (.node c .nil .nil) := by
    rw [Builder.insert, hinserted, hpath, Frame.plug, Frame.plug]
    rfl
  refine ⟨_, _, edit_of_apply (h.apply_addBelow c), h.onChildren ?_, fun hvoid =>
    ⟨?_, ?_, ?_, h.quirks_eq, h.decided_eq, ?_⟩⟩
  · rw [← Builder.insert, Builder.document_eq_layout, htree]
  · rw [Builder.document_eq_layout]
    rfl
  · exact congrArg (Frame.count b.path :: ·) h.ids_eq
  · exact congrArg (c.name :: ·) h.tags_eq
  · intro tag htag
    rcases List.mem_cons.mp htag with rfl | htag
    · exact hvoid
    · exact h.notVoid tag htag

/-- **A text is added at the end of the tree under construction**: the text there grows, or a new one
is added, and nothing goes wrong. -/
theorem addText (h : d.Shows b) (value : String) :
    ∃ id d', d.edit (Edit.addTextBelow d.current value) = .ok (id, d') ∧
      d'.Shows (b.onChildren (Builder.joinText value)) := by
  obtain ⟨⟨content, done⟩, outer, hpath, hchildren, hchanged, -⟩ := b.exists_path_eq
  have howner : d.doc.nodes[d.current]? = some (Frame.entry ⟨content, done⟩ outer []) := by
    rw [h.current_eq hpath, ← Frame.length_nodes outer [Frame.count outer]]
    exact Document.getElem?_of_toList (h.toList_nodes hpath)
  -- a text that joins no other is added as any node is
  have hnew (hends : b.endsInText = false)
      (hlast : ∀ last, (Frame.entry ⟨content, done⟩ outer []).children.getLast? = some last →
        ∃ node, d.doc.nodes[last]? = some node ∧ node.isText = false) :
      ∃ id d', d.edit (Edit.addTextBelow d.current value) = .ok (id, d') ∧
        d'.Shows (b.onChildren (Builder.joinText value)) := by
    obtain ⟨id, d', hadd, hshows, -⟩ := h.add (.leaf .text value)
    rw [edit_congr (Edit.addTextBelow_eq_addBelow howner hlast value),
      Builder.onChildren_joinText hends]
    exact ⟨id, d', hadd, hshows⟩
  cases done with
  | nil =>
    refine hnew ?_ fun last hlast => nomatch hlast
    rw [Builder.endsInText, hchildren]
    rfl
  | cons tree earlier =>
    obtain ⟨last, below⟩ := tree
    obtain ⟨before, after, node, hlast, rfl, hnodes⟩ :=
      Frame.exists_last content last below earlier outer
    have htoList : d.doc.nodes.toList = before ++ node :: after := by
      rw [h.doc_eq, Builder.document, List.toList_toArray, hpath, hnodes]
    have hnode := Document.getElem?_of_toList htoList
    cases htext : node.isText with
    | false =>
      refine hnew ?_ fun last' hlast' => ?_
      · rw [Builder.endsInText, hchildren]
        simpa using htext
      · obtain rfl := Option.some.inj (hlast.symm.trans hlast')
        exact ⟨node, hnode, htext⟩
    | true =>
      have hpath' : (b.onChildren (Builder.joinText value)).path =
          ⟨content, ({ node.toContent with value := node.value ++ value }, below) :: earlier⟩ ::
            outer := by
        rw [hchanged, Builder.joinText, if_pos htext]
      refine ⟨_, _, edit_of_apply
        (Edit.apply_addTextBelow_of_text howner hlast hnode htext value), h.onChildren ?_⟩
      rw [Builder.document, hpath', hnodes, Document.altered_of_toList htoList, h.doc_eq,
        Builder.document]

end Shows

/-- Both are refused with the same error, or come to results that belong together. -/
inductive Agree {α β : Type} (R : α → β → Prop) :
    Except DocumentError α → Except DocumentError β → Prop where
  | error (e : DocumentError) : Agree R (.error e) (.error e)
  | ok {a : α} {b : β} (h : R a b) : Agree R (.ok a) (.ok b)

/-- Results that belong together do so after changes that keep them together. -/
theorem Agree.map {α β γ δ : Type} {R : α → β → Prop} {S : γ → δ → Prop}
    {x : Except DocumentError α} {y : Except DocumentError β} (h : Agree R x y) {f : α → γ}
    {g : β → δ} (hmaps : ∀ {a b}, R a b → S (f a) (g b)) : Agree S (x.map f) (y.map g) := by
  cases h with
  | error e => exact .error e
  | ok hrel => exact .ok (hmaps hrel)

/-- What is refused on one side is refused on the other. -/
theorem Agree.eq_error {α β : Type} {R : α → β → Prop} {e : DocumentError}
    {y : Except DocumentError β} (h : Agree R (.error e) y) : y = .error e := by
  cases h
  rfl

/-- What one side comes to has its counterpart on the other. -/
theorem Agree.exists_ok {α β : Type} {R : α → β → Prop} {a : α} {y : Except DocumentError β}
    (h : Agree R (.ok a) y) : ∃ b, y = .ok b ∧ R a b := by
  cases h with
  | ok hrel => exact ⟨_, rfl, hrel⟩

/-- A draft shows a tree, and the same raw text is asked for. -/
def ShowsNext (next : Draft × Option String) (next' : Builder × Option String) : Prop :=
  next.1.Shows next'.1 ∧ next.2 = next'.2

namespace Shows

variable {d : Draft} {b : Builder}

/-- A start tag makes of the draft what it makes of the builder. -/
theorem start (h : d.Shows b) (maxDepth : Nat) (tag : StartTag) :
    Agree ShowsNext (d.start maxDepth tag) (b.start maxDepth tag) := by
  have hclosed := h.closeTo (Open.afterStart tag.name b.quirks b.openTags)
  unfold Draft.start Builder.start
  simp only [h.tags_eq, h.quirks_eq]
  obtain ⟨id, d', hadd, hinserted, hopened⟩ := hclosed.add (.element tag.name tag.attributes
    ((Tag.isForeignRoot tag.name || Open.inForeign b.openTags) && tag.selfClosing))
  rw [hadd]
  change Agree ShowsNext (ite _ _ _) (ite _ _ _)
  split
  · exact .ok ⟨hinserted, rfl⟩
  · next hleaf =>
    have hopened' := hopened (Bool.or_eq_false_iff.mp (Bool.eq_false_iff.mpr hleaf)).2
    have hlength : ((id, tag.name) :: d'.opened).length = _ := hopened'.length_opened
    simp only [hlength]
    split
    · exact .error _
    · exact .ok ⟨hopened', rfl⟩

/-- An end tag makes of the draft what it makes of the builder. -/
theorem finish (h : d.Shows b) (maxDepth : Nat) (name : String) :
    Agree Shows (d.finish maxDepth name) (b.finish maxDepth name) := by
  unfold Draft.finish Builder.finish
  simp only [h.tags_eq]
  split
  · exact (h.start maxDepth ⟨"br", .empty, false⟩).map And.left
  · split
    · exact .ok (h.closeTo _)
    · split
      · obtain ⟨id, d', hadd, hinserted, -⟩ := h.add (.element "p" .empty false)
        rw [hadd]
        exact .ok hinserted
      · exact .ok h

/-- **A token makes of the draft what it makes of the builder**, or both refuse it with the same
error. -/
theorem step (h : d.Shows b) (maxDepth : Nat) (token : Token) :
    Agree ShowsNext (d.step maxDepth token) (b.step maxDepth token) := by
  have hobserved := h.observe token
  have hleaf (c : Content) : Agree ShowsNext
      (((d.observe token).add c).map fun added => (added.2, none))
      (.ok ((b.observe token).insert (c, .nil), none)) := by
    obtain ⟨id, d', hadd, hinserted, -⟩ := hobserved.add c
    rw [hadd]
    exact .ok ⟨hinserted, rfl⟩
  cases token with
  | text value =>
    obtain ⟨id, d', hadd, hshows⟩ := hobserved.addText value
    rw [Draft.step, hadd, Builder.step]
    exact .ok ⟨hshows, rfl⟩
  | comment value => exact hleaf _
  | doctype value => exact hleaf _
  | cdata value => exact hleaf _
  | instruction value => exact hleaf _
  | startTag tag => exact hobserved.start maxDepth tag
  | endTag name => exact (hobserved.finish maxDepth name).map fun hshows => ⟨hshows, rfl⟩

/-! ## All tokens of a page -/

/-- **A page makes of the draft what it makes of the builder**, or both refuse it with the same error:
no node is missing from the table, and none is added to a void element. -/
theorem run (h : d.Shows b) (maxDepth : Nat) (raw : Option String) (input : List Char) :
    Agree Shows (d.run maxDepth raw input) (b.run maxDepth raw input) := by
  fun_induction Draft.run maxDepth d raw input generalizing b with
  | case1 d raw input hnext =>
    rw [Builder.run_of_next?_none hnext]
    exact .ok h
  | case2 d raw input token rest hnext e hstep =>
    have hagree := h.step maxDepth token
    rw [hstep] at hagree
    rw [Builder.run_of_error hnext hagree.eq_error]
    exact .error e
  | case3 d raw input token rest hnext d' raw' hstep ih =>
    have hagree := h.step maxDepth token
    rw [hstep] at hagree
    obtain ⟨⟨b', -⟩, hstep', hshows, rfl⟩ := hagree.exists_ok
    rw [Builder.run_of_step hnext hstep']
    exact ih hshows

end Shows

end Draft

/-- Whatever the builder of a page comes to, a draft shows. -/
theorem Draft.exists_run_of_run {maxDepth : Nat} {raw : Option String} {input : List Char}
    {b : Builder} (h : Builder.run maxDepth {} raw input = .ok b) :
    ∃ d, Draft.run maxDepth {} raw input = .ok d ∧ d.Shows b ∧ d.doc = .ofForest b.forest := by
  have hagree := Shows.new.run maxDepth raw input
  rw [h] at hagree
  generalize Draft.run maxDepth {} raw input = drafted at hagree ⊢
  cases hagree with
  | @ok d b hshows => exact ⟨d, rfl, hshows, hshows.doc_eq.trans b.document_eq⟩

/-- **The document of a page is the layout of its forest**, and a page is refused as its forest is. -/
theorem Document.parse_eq_map (maxDepth : Nat) (page : String) :
    Document.parse maxDepth page = (Forest.parse maxDepth page).map .ofForest := by
  have hagree := Draft.Shows.new.run maxDepth none page.toList
  rw [Document.parse, Forest.parse]
  cases hrun : Builder.run maxDepth {} none page.toList with
  | error e =>
    rw [hrun] at hagree
    generalize Draft.run maxDepth {} none page.toList = drafted at hagree ⊢
    cases hagree
    rfl
  | ok b =>
    obtain ⟨d, hdraft, -, hdoc⟩ := Draft.exists_run_of_run hrun
    rw [hdraft]
    exact congrArg Except.ok hdoc

end HtmlMinify
