import HtmlMinify.Proofs.KeptText
import HtmlMinify.Proofs.RawElements

/-!
# Documents that were read

A draft appends at the end of a stack that start tags, end tags and foreign content cut in many ways.
Whatever the tokens, the document that comes out has all its links set both ways, its ids in document
order, joined texts, and children only where there can be some. Its raw text elements hold at most one
text, unless they stand in foreign content. Each token takes a character at least and adds a node at
most, which bounds the ids by the length of the page.

## Main statements

* `Draft.size_step_le`, `Draft.size_run_le`: how many nodes a token adds, and a page.
* `Document.parse_wellFormed`: every page that is read gives a well-formed document.
-/

namespace HtmlMinify

open Text

/-! ## How many nodes there are -/

namespace Edit

variable {α β : Type}

/-- The change adds at most `n` nodes to the table, whether it succeeds or fails. -/
def Grows (n : Nat) (edit : Edit α) : Prop :=
  ∀ doc, (edit.apply doc).2.size ≤ doc.size + n

/-- After an error nothing more is done. -/
theorem apply_bind_of_error {edit : Edit α} {doc doc' : Document} {e : DocumentError}
    (h : edit.apply doc = (.error e, doc')) (next : α → Edit β) :
    (edit >>= next).apply doc = (.error e, doc') := by
  change (ExceptT.run (edit >>= next)).run doc = _
  rw [ExceptT.run_bind, StateT.run_bind]
  change (ExceptT.run edit).run doc = _ at h
  rw [h]
  rfl

/-- What changes add one after the other sums up. -/
theorem Grows.bind {n m : Nat} {edit : Edit α} (h : edit.Grows n) {next : α → Edit β}
    (hnext : ∀ a, (next a).Grows m) : (edit >>= next).Grows (n + m) := by
  intro doc
  have hedit := h doc
  rcases hrun : edit.apply doc with ⟨result, doc'⟩
  rw [hrun] at hedit
  change doc'.size ≤ doc.size + n at hedit
  cases result with
  | error e =>
    rw [apply_bind_of_error hrun]
    exact Nat.le_trans hedit (by omega)
  | ok a =>
    rw [apply_bind hrun]
    exact Nat.le_trans (hnext a doc') (by omega)

/-- Looking at the document adds nothing. -/
theorem grows_read (look : Document → Except DocumentError α) : (read look).Grows 0 := by
  intro doc
  rw [read, apply_bind (rfl : (get : Edit Document).apply doc = (.ok doc, doc))]
  cases look doc <;> exact Nat.le_refl _

/-- Changing a node adds nothing. -/
theorem grows_alter (id : NodeId) (change : Node → Node) : (alter id change).Grows 0 := by
  refine (grows_read (·.node id)).bind (m := 0) fun _ doc => ?_
  exact Nat.le_of_eq (Document.size_altered doc id change)

/-- Adding a node adds one. -/
theorem grows_add (c : Content) : (add c).Grows 1 :=
  fun _ => Nat.le_of_eq (Array.size_push _)

/-- Linking two nodes adds nothing. -/
theorem grows_append (parent child : NodeId) : (append parent child).Grows 0 := by
  refine (grows_read (·.node parent)).bind (m := 0) fun owner => ?_
  split
  · exact fun _ => Nat.le_refl _
  · exact (grows_alter _ _).bind (m := 0) fun _ => grows_alter _ _

/-- Adding a node below another adds one. -/
theorem grows_addBelow (parent : NodeId) (c : Content) : (addBelow parent c).Grows 1 :=
  (grows_add c).bind (m := 0) fun id =>
    (grows_append parent id).bind (m := 0) fun _ _ => Nat.le_refl _

/-- Adding a text adds one node at most. -/
theorem grows_addTextBelow (parent : NodeId) (value : String) :
    (addTextBelow parent value).Grows 1 := by
  refine (grows_read (·.node parent)).bind (m := 1) fun owner => ?_
  split
  · exact grows_addBelow parent _
  · refine (grows_read _).bind (m := 1) fun node => ?_
    split
    · exact (grows_alter _ _).bind (m := 1) fun _ _ => Nat.le_succ _
    · exact grows_addBelow parent _

end Edit

namespace Draft

variable {d d' : Draft}

/-- What comes out of a result came of one. -/
theorem exists_of_map_eq_ok {α β : Type} {f : α → β} {x : Except DocumentError α} {b : β}
    (h : x.map f = .ok b) : ∃ a, x = .ok a ∧ f a = b := by
  cases x with
  | error e => cases h
  | ok a => exact ⟨a, rfl, Except.ok.inj h⟩

/-- A change of the document adds as many nodes to the draft. -/
theorem size_edit_le {α : Type} {n : Nat} {change : Edit α} {a : α} (hgrows : change.Grows n)
    (h : d.edit change = .ok (a, d')) : d'.doc.size ≤ d.doc.size + n := by
  have hsize := hgrows d.doc
  obtain ⟨doc, opened, quirks, decided⟩ := d
  rw [edit] at h
  split at h
  · next hrun =>
    cases h
    rwa [hrun] at hsize
  · cases h

/-- What a token says about quirks mode adds no node. -/
theorem doc_observe (token : Token) (d : Draft) : (d.observe token).doc = d.doc := by
  cases token with
  | text value =>
    rw [observe]
    split <;> rfl
  | doctype value =>
    rw [observe]
    split <;> rfl
  | comment _ | cdata _ | instruction _ | startTag _ | endTag _ => rfl

/-- Ending elements adds no node. -/
theorem doc_closeTo (left : List String) (d : Draft) : (d.closeTo left).doc = d.doc := rfl

/-- A start tag adds one node. -/
theorem size_start_le {maxDepth : Nat} {tag : StartTag} {raw : Option String}
    (h : d.start maxDepth tag = .ok (d', raw)) : d'.doc.size ≤ d.doc.size + 1 := by
  simp only [start, bind, Except.bind] at h
  split at h
  · cases h
  · next added hadd =>
    have hsize := size_edit_le (Edit.grows_addBelow _ _) hadd
    rw [doc_closeTo] at hsize
    split at h
    · cases h
      exact hsize
    · split at h
      · cases h
      · cases h
        exact hsize

/-- An end tag adds one node at most. -/
theorem size_finish_le {maxDepth : Nat} {name : String} (h : d.finish maxDepth name = .ok d') :
    d'.doc.size ≤ d.doc.size + 1 := by
  simp only [finish] at h
  split at h
  · obtain ⟨⟨started, raw⟩, hstart, rfl⟩ := exists_of_map_eq_ok h
    exact size_start_le hstart
  · split at h
    · cases h
      rw [doc_closeTo]
      exact Nat.le_succ _
    · split at h
      · obtain ⟨⟨id, added⟩, hadd, rfl⟩ := exists_of_map_eq_ok h
        exact size_edit_le (Edit.grows_addBelow _ _) hadd
      · cases h
        exact Nat.le_succ _

/-- **A token adds one node at most.** -/
theorem size_step_le {maxDepth : Nat} {token : Token} {raw : Option String}
    (h : d.step maxDepth token = .ok (d', raw)) : d'.doc.size ≤ d.doc.size + 1 := by
  rw [← doc_observe token d]
  cases token with
  | text value =>
    obtain ⟨⟨id, added⟩, hadd, hsame⟩ := exists_of_map_eq_ok h
    cases hsame
    exact size_edit_le (Edit.grows_addTextBelow _ _) hadd
  | comment value | doctype value | cdata value | instruction value =>
    obtain ⟨⟨id, added⟩, hadd, hsame⟩ := exists_of_map_eq_ok h
    cases hsame
    exact size_edit_le (Edit.grows_addBelow _ _) hadd
  | startTag tag => exact size_start_le h
  | endTag name =>
    obtain ⟨finished, hfinish, hsame⟩ := exists_of_map_eq_ok h
    cases hsame
    exact size_finish_le hfinish

/-- **So a page adds no more nodes than it has characters**, for each token takes one. -/
theorem size_run_le {maxDepth : Nat} {raw : Option String} {input : List Char}
    (h : d.run maxDepth raw input = .ok d') : d'.doc.size ≤ d.doc.size + input.length := by
  fun_induction run maxDepth d raw input with
  | case1 d raw input hnext =>
    cases h
    exact Nat.le_add_right _ _
  | case2 => cases h
  | case3 d raw input token rest hnext next raw' hstep ih =>
    have hone := size_step_le hstep
    have hless := Token.length_next?_lt hnext
    have hrest := ih h
    omega

end Draft
/-! ## What the nodes are -/

namespace Document

/-- A node of the document that begins foreign content, or stands somewhere below one. -/
inductive InForeign (doc : Document) : NodeId → Prop where
  | root {id : NodeId} {node : Node} (hnode : doc.nodes[id]? = some node)
    (helement : node.isElement = true) (hroot : Tag.isForeignRoot node.name = true) :
    InForeign doc id
  | inside {id above : NodeId} {node : Node} (hnode : doc.nodes[id]? = some node)
    (hparent : node.parent = some above) (habove : InForeign doc above) : InForeign doc id

/-- The children of a node are as reading leaves them: texts are filled and apart, only elements and
the document have children, and a raw text element outside foreign content at most one text. -/
structure ChildrenTidy (doc : Document) (id : NodeId) (node : Node)
    (children : List (NodeId × Node)) : Prop where
  joined : Siblings.Joined (children.map (·.2.toContent))
  kind : children ≠ [] → node.kind = .element ∨ node.kind = .document
  raw : node.isElement = true → Tag.isRawText node.name = true → ¬ doc.InForeign id →
    children = [] ∨ ∃ child, children = [child] ∧ child.2.isText = true

end Document

namespace Forest

/-- A node of a forest has a family, with its children. -/
theorem Has.exists_family {f below : NumberedForest} {id : NodeId} {c : Content}
    (h : f.Has id c below) (free : Bool) :
    ∃ fam ∈ f.families free, fam.id = id ∧ fam.content = c ∧ fam.children = below.roots := by
  induction h generalizing free with
  | here => exact ⟨_, List.mem_cons_self, rfl, rfl, rfl⟩
  | inside _ ih =>
    obtain ⟨fam, hfam, hsame⟩ := ih _
    exact ⟨fam, mem_of_mem_below hfam, hsame⟩
  | after _ ih =>
    obtain ⟨fam, hfam, hsame⟩ := ih _
    exact ⟨fam, mem_of_mem_beside hfam, hsame⟩

/-- At most one text, with its id. -/
theorem OneText.roots {f : NumberedForest} (h : f.contents.OneText) :
    f.roots = [] ∨ ∃ root, f.roots = [root] ∧ root.2.isText = true := by
  cases f with
  | nil => exact .inl rfl
  | node label children siblings =>
    obtain ⟨id, c⟩ := label
    obtain ⟨htext, -, hsiblings⟩ := h
    rw [contents_eq_nil_iff.mp hsiblings]
    exact .inr ⟨(id, c), rfl, htext⟩

end Forest

namespace Document

variable {doc : Document}

/-- What a node of a forest holds if it is raw, given the tags around it. They are foreign only where
the document says so. -/
theorem exists_outer_of_has {f : NumberedForest} {parent : Option NodeId} {outer : List String}
    (h : doc.Shows parent f) (hbuilt : f.contents.Built outer) (hkept : f.contents.RawKept outer)
    (hforeign : Open.inForeign outer = true → ∃ above, parent = some above ∧ doc.InForeign above)
    {id : NodeId} {c : Content} {below : NumberedForest} (hhas : f.Has id c below) :
    ∃ tags, (rawIn (c.name :: tags) = true → below.contents.OneText) ∧
      (Open.inForeign tags = true → doc.InForeign id) := by
  induction hhas generalizing parent outer with
  | here =>
    refine ⟨outer, hkept.1, fun hin => ?_⟩
    obtain ⟨above, hparent, habove⟩ := hforeign hin
    exact .inside h.1 hparent habove
  | @inside other id d c children siblings below hinside ih =>
    obtain ⟨hnode, hchildren, -⟩ := h
    refine ih hchildren hbuilt.2.1 hkept.2.1 fun hin => ⟨other, rfl, ?_⟩
    rw [Open.inForeign, List.any_cons, Bool.or_eq_true] at hin
    rcases hin with hroot | hin
    · refine .root hnode ?_ hroot
      -- only an element has a node below it
      by_contra hnot
      have hnil := hbuilt.1.childless (.inl (by simpa using hnot))
      rw [Forest.contents_eq_nil_iff.mp hnil] at hinside
      cases hinside
    · obtain ⟨above, hparent, habove⟩ := hforeign hin
      exact .inside hnode hparent habove
  | after _ ih => exact ih h.2.2 hbuilt.2.2 hkept.2.2 hforeign

/-- A raw text element outside foreign content holds at most one text. -/
theorem oneText_of_has {f : Forest Content} {start : NodeId}
    (h : doc.Shows (some 0) (f.number start)) (hbuilt : f.Built []) (hkept : f.RawKept [])
    {id : NodeId} {c : Content} {below : NumberedForest} (hhas : (f.number start).Has id c below)
    (htag : Tag.isRawText c.name = true) (hforeign : ¬ doc.InForeign id) :
    below.contents.OneText := by
  rw [← Forest.contents_number start f] at hbuilt hkept
  obtain ⟨tags, hraw, hin⟩ := exists_outer_of_has h hbuilt hkept (fun hin => by cases hin) hhas
  refine hraw ?_
  have htags : Open.inForeign tags = false := by
    rw [Bool.eq_false_iff]
    exact fun htrue => hforeign (hin htrue)
  have hroot := (Tag.apart_of_isRawText htag).2
  rw [rawIn, Open.inForeign, List.any_cons, hroot, Bool.false_or]
  rw [Open.inForeign] at htags
  rw [htags]
  exact htag

/-- The children of a family's node, if the family is tidy and holds at most one text where it is
raw. -/
theorem childrenTidy_of_keeps {fam : Family} {node : Node} (hkeeps : doc.Keeps fam)
    (htidy : fam.Tidy) (hnode : node.toContent = fam.content)
    (hraw : fam.content.isElement = true → Tag.isRawText fam.content.name = true →
      ¬ doc.InForeign fam.id →
      fam.children = [] ∨ ∃ child, fam.children = [child] ∧ child.2.isText = true) :
    ∃ children, doc.children fam.id = .ok children ∧ doc.ChildrenTidy fam.id node children := by
  obtain ⟨children, hchildren, hmap⟩ := children_of_keeps hkeeps
  refine ⟨children, hchildren, ?_, fun hne => ?_, fun helement htag hforeign => ?_⟩
  · have hcontents : children.map (·.2.toContent) = fam.contents := by
      rw [Family.contents, ← hmap, List.map_map]
      rfl
    rw [hcontents]
    exact htidy.joined
  · rw [hnode]
    by_cases hdocument : fam.content.kind = .document
    · exact .inr hdocument
    · cases hleaf : fam.content.isLeaf with
      | false => exact .inl (Content.kind_of_not_isLeaf hleaf hdocument).1
      | true =>
        rw [htidy.childless hleaf, List.map_eq_nil_iff] at hmap
        exact absurd hmap hne
  · rw [hnode] at helement htag
    rcases hraw helement htag hforeign with hnone | ⟨child, hone, htext⟩
    · rw [hnone, List.map_eq_nil_iff] at hmap
      exact .inl hmap
    · rw [hone, List.map_eq_singleton_iff] at hmap
      obtain ⟨only, honly, rfl⟩ := hmap
      exact .inr ⟨only, honly, htext⟩

/-- Every node of a page that was read stands in the forest that was read. -/
theorem exists_has_of_parse {maxDepth : Nat} {page : String}
    (h : Document.parse maxDepth page = .ok doc) :
    ∃ f, Forest.parse maxDepth page = .ok f ∧ doc.Stands 0 (f.number 1) ∧ Tidy 0 (f.number 1) ∧
      ∀ {id node}, doc.node id = .ok node →
        ∃ below, Forest.Has (.node (0, .document) (f.number 1) .nil) id node.toContent below := by
  obtain ⟨f, hparse, hstands, htidy⟩ := exists_stands_of_parse h
  refine ⟨f, hparse, hstands, htidy, fun {id node} hnode => ?_⟩
  have hmem : id ∈ Forest.allIds (.node (0, .document) (f.number 1) .nil) := by
    rw [Document.parse_eq_map, hparse] at h
    cases h
    have hlt := (Array.getElem?_eq_some_iff.mp (getElem?_of_node hnode)).1
    rw [← Document.size, size_ofForest, ← List.mem_range, List.range_eq_range'] at hlt
    rw [Forest.allIds_node, Forest.allIds_number, Forest.allIds_nil, List.append_nil]
    exact hlt
  obtain ⟨c, below, hhas⟩ := Forest.exists_has_of_mem hmem
  rw [← hstands.content_of_has hhas hnode] at hhas
  exact ⟨below, hhas⟩

/-- A node with children in a page that was read is no text or comment. It has a family, whose
children these are. -/
theorem exists_family_of_parse {maxDepth : Nat} {page : String}
    (h : Document.parse maxDepth page = .ok doc) :
    ∃ f, doc.Stands 0 f ∧ Tidy 0 f ∧ ∀ {id node children}, doc.node id = .ok node →
      doc.children id = .ok children → children ≠ [] →
      ∃ fam ∈ familiesOf 0 f, fam.id = id ∧ fam.content = node.toContent ∧
        fam.content.mayGo = false ∧
        fam.children = children.map fun child => (child.1, child.2.toContent) := by
  obtain ⟨f, -, hstands, htidy, hhas⟩ := exists_has_of_parse h
  refine ⟨f.number 1, hstands, htidy, fun {id node children} hnode hchildren hne => ?_⟩
  obtain ⟨below, hhas⟩ := hhas hnode
  obtain ⟨fam, hfam, hid, hcontent, -⟩ := hhas.exists_family true
  obtain ⟨children', hchildren', hmap⟩ := children_of_keeps (hstands.keeps hfam)
  rw [hid, hchildren] at hchildren'
  cases hchildren'
  refine ⟨fam, hfam, hid, hcontent, ?_, hmap.symm⟩
  rw [Bool.eq_false_iff]
  intro hgoes
  rw [(htidy fam hfam).childless (Content.isLeaf_of_mayGo hgoes), List.map_eq_nil_iff] at hmap
  exact hne hmap

/-- A page that was read has no more nodes below the root than characters. -/
theorem size_le_of_parse {maxDepth : Nat} {page : String}
    (h : Document.parse maxDepth page = .ok doc) : doc.size ≤ page.length + 1 := by
  obtain ⟨d, hrun, rfl⟩ := Draft.exists_of_map_eq_ok h
  have hsize := Draft.size_run_le hrun
  rw [String.length_toList] at hsize
  rw [Nat.add_comm]
  exact hsize

/-- **Every page that is read gives a well-formed document.** All links agree, every node is reached
exactly once and in the order of the ids, no text is empty or next to another, and nodes have the
children that they can have. There are no more nodes below the root than characters in the page, so the
ids of a page with fewer than `UInt32.size` characters fit into 32 bits. -/
theorem parse_wellFormed {maxDepth : Nat} {page : String}
    (h : Document.parse maxDepth page = .ok doc) :
    doc.validate = .ok () ∧ doc.descendants = .ok (List.range doc.size) ∧
      Edit.normalize.apply doc = (.ok 0, doc) ∧
      (∀ id node, doc.node id = .ok node →
        ∃ children, doc.children id = .ok children ∧ doc.ChildrenTidy id node children) ∧
      doc.size ≤ page.length + 1 ∧
      (page.length < UInt32.size → ∀ id node, doc.node id = .ok node → id < UInt32.size) := by
  obtain ⟨f, hparse, hstands, htidy⟩ := exists_stands_of_parse h
  have hsize : doc.size = f.size + 1 := by
    rw [Document.parse_eq_map, hparse] at h
    cases h
    exact size_ofForest f
  have hall : Forest.allIds (.node (0, .document) (f.number 1) .nil) = List.range doc.size := by
    rw [Forest.allIds_node, Forest.allIds_number, Forest.allIds_nil, List.append_nil, hsize,
      List.range_eq_range']
    rfl
  have hfew := size_le_of_parse h
  have hid {id : NodeId} {node : Node} (hnode : doc.node id = .ok node) : id < doc.size :=
    (Array.getElem?_eq_some_iff.mp (getElem?_of_node hnode)).1
  refine ⟨hstands.validate htidy.sound, ?_, ?_, fun id node hnode => ?_, hfew,
    fun hpage id node hnode => Nat.lt_of_lt_of_le (hid hnode) (Nat.le_trans hfew hpage)⟩
  · rw [hstands.descendants, familiesOf, Forest.map_id_families, hall]
  · exact hstands.apply_normalize_of_joined fun fam hfam => (htidy fam hfam).joined
  · have hmem : id ∈ Forest.allIds (.node (0, .document) (f.number 1) .nil) := by
      rw [hall, List.mem_range]
      exact hid hnode
    obtain ⟨c, below, hhas⟩ := Forest.exists_has_of_mem hmem
    have hraw : c.isElement = true → Tag.isRawText c.name = true → ¬ doc.InForeign id →
        below.roots = [] ∨ ∃ child, below.roots = [child] ∧ child.2.isText = true := by
      intro helement htag hforeign
      -- the root of the document is no element, so the node is one of the forest below it
      cases hhas with
      | here => cases helement
      | inside hinside =>
        exact (oneText_of_has hstands.shows.2.1 (Forest.built_of_parse hparse)
          (Forest.rawKept_of_parse hparse) hinside htag hforeign).roots
      | after hafter => cases hafter
    have hcontent := hstands.content_of_has hhas hnode
    obtain ⟨fam, hfam, rfl, rfl, hbelow⟩ := hhas.exists_family true
    rw [← hbelow] at hraw
    exact childrenTidy_of_keeps (hstands.keeps hfam) (htidy fam hfam) hcontent hraw

/-- A script whose end tag is never finished: its text is read in two pieces. -/
def openScript : Forest Content :=
  .node (.element "p" .empty false)
    (.node (.leaf .text "b") .nil <|
      .node (.element "script" .empty false) (.node (.leaf .text "a</script ") .nil .nil) .nil)
    .nil

/-- The sample is read from its markup. -/
theorem parse_openScript :
    Document.parse 8 "<p>b<script>a</script " = .ok (.ofForest openScript) := by
  have hread : ∃ b, (Builder.run 8 {} none "<p>b<script>a</script ".toList = .ok b ∧
      Builder.log 8 {} none "<p>b<script>a</script ".toList =
        [⟨.startTag ⟨"p", .empty, false⟩, []⟩, ⟨.text "b", ["p"]⟩,
          ⟨.startTag ⟨"script", .empty, false⟩, ["p"]⟩, ⟨.text "a", ["script", "p"]⟩,
          ⟨.text "</script ", ["script", "p"]⟩]) ∧ b.forest = openScript :=
    ⟨_, Builder.run_log_of_step "b<script>a</script ".toList
        (Builder.next?_bareTag "p" (by decide) _) rfl <|
      Builder.run_log_of_step "<script>a</script ".toList rfl rfl <|
      Builder.run_log_of_step "a</script ".toList
        (Builder.next?_bareTag "script" (by decide) _) rfl <|
      Builder.run_log_of_step "</script ".toList rfl rfl <|
      Builder.run_log_of_step [] rfl rfl Builder.run_log_nil, rfl⟩
  obtain ⟨b, ⟨hrun, -⟩, hforest⟩ := hread
  exact parse_eq_ofForest hrun hforest

theorem not_inForeign_openScript : ¬ (ofForest openScript).InForeign 3 := by
  have hdocument : ¬ (ofForest openScript).InForeign 0 := by
    intro h
    cases h with
    | root hnode helement _ =>
      cases hnode
      cases helement
    | inside hnode hparent _ =>
      cases hnode
      cases hparent
  have hparagraph : ¬ (ofForest openScript).InForeign 1 := by
    intro h
    cases h with
    | root hnode _ hroot =>
      cases hnode
      exact absurd hroot (by decide)
    | inside hnode hparent habove =>
      cases hnode
      cases hparent
      exact hdocument habove
  intro h
  cases h with
  | root hnode _ hroot =>
    cases hnode
    exact absurd hroot (by decide)
  | inside hnode hparent habove =>
    cases hnode
    cases hparent
    exact hparagraph habove

/-- A script that is not closed is in its place all the same. -/
theorem parse_wellFormed_openScript :
    Document.parse 8 "<p>b<script>a</script " = .ok (.ofForest openScript) ∧
      (ofForest openScript).validate = .ok () ∧
      (ofForest openScript).descendants = .ok [0, 1, 2, 3, 4] ∧
      Edit.normalize.apply (ofForest openScript) = (.ok 0, ofForest openScript) ∧
      (∃ children, (ofForest openScript).children 3 = .ok children ∧
        (children = [] ∨ ∃ child, children = [child] ∧ child.2.isText = true)) ∧
      ∀ id node, (ofForest openScript).node id = .ok node → id < UInt32.size := by
  obtain ⟨hvalidate, hdescendants, hnormalize, hnodes, -, hids⟩ := parse_wellFormed parse_openScript
  obtain ⟨children, hchildren, htidy⟩ := hnodes 3 _ rfl
  exact ⟨parse_openScript, hvalidate, hdescendants, hnormalize, ⟨children, hchildren,
    htidy.raw rfl (by decide) not_inForeign_openScript⟩, hids (by decide)⟩

end Document

end HtmlMinify
