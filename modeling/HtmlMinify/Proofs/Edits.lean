import HtmlMinify.Proofs.Siblings

/-!
# What edits do to families

An edit reads and writes two columns of the table: the child lists and the entries of nodes.
`Document.Differs` says where two documents may differ in them, so a family away from an edit is
kept. From this follows what taking nodes out of the tree and joining texts do to each family, by
one step for each family and a run over all of them.

## Main statements

* `Edit.exists_apply_each`: an edit that goes family by family.
* `Edit.exists_apply_detach`, `Edit.exists_apply_detach_families`: taking nodes out of the tree.
* `Document.HasTree.exists_apply_normalize`, `Document.HasTree.apply_normalize_of_joined`: joining
  texts.
-/

namespace HtmlMinify

namespace Document

variable {doc doc' doc'' : Document}

/-- The document with a node changed. -/
def altered (doc : Document) (id : NodeId) (change : Node → Node) : Document :=
  { doc with nodes := doc.nodes.modify id change }

/-- Altering one node leaves the others. -/
theorem getElem?_altered (doc : Document) (id : NodeId) (change : Node → Node) (j : NodeId) :
    (doc.altered id change).nodes[j]? =
      if id = j then doc.nodes[j]?.map change else doc.nodes[j]? := by
  rw [altered, Array.getElem?_modify]

/-- A change that leaves its node leaves the document. -/
theorem altered_of_eq_self {id : NodeId} {change : Node → Node}
    (h : ∀ node, doc.nodes[id]? = some node → change node = node) : doc.altered id change = doc := by
  have hnodes : doc.nodes.modify id change = doc.nodes := by
    refine Array.ext_getElem? fun j => ?_
    rw [Array.getElem?_modify]
    split
    · next hid =>
      subst hid
      cases hnode : doc.nodes[id]? with
      | none => rfl
      | some node => rw [Option.map_some, h node hnode]
    · rfl
  rw [altered, hnodes]

/-- Two changes of one node are one change. -/
theorem altered_altered (doc : Document) (id : NodeId) (first second : Node → Node) :
    (doc.altered id first).altered id second = doc.altered id (second ∘ first) := by
  rw [altered, altered, altered]
  congr 1
  refine Array.ext_getElem? fun j => ?_
  rw [Array.getElem?_modify, Array.getElem?_modify, Array.getElem?_modify]
  split
  · rw [Option.map_map]
  · rfl

/-- The documents differ at most in the child lists of the owners and the entries of the members,
and each node stays alike. -/
structure Differs (owners members : List NodeId) (doc doc' : Document) : Prop where
  root_eq : doc'.root = doc.root
  size_eq : doc'.size = doc.size
  childIds_eq : ∀ id ∉ owners, doc'.childIds id = doc.childIds id
  entry_eq : ∀ id ∉ members, doc'.entry id = doc.entry id
  alike : ∀ id c above, doc.entry id = some (c, above) →
    ∃ c' above', doc'.entry id = some (c', above') ∧ c.Alike c'

namespace Differs

variable {owners members owners' members' : List NodeId}

theorem refl (doc : Document) : Differs [] [] doc doc :=
  ⟨rfl, rfl, fun _ _ => rfl, fun _ _ => rfl, fun _ c above h => ⟨c, above, h, .refl c⟩⟩

theorem trans (h : Differs owners members doc doc') (h' : Differs owners' members' doc' doc'') :
    Differs (owners ++ owners') (members ++ members') doc doc'' where
  root_eq := h'.root_eq.trans h.root_eq
  size_eq := h'.size_eq.trans h.size_eq
  childIds_eq id hid := by
    rw [List.mem_append, not_or] at hid
    rw [h'.childIds_eq id hid.2, h.childIds_eq id hid.1]
  entry_eq id hid := by
    rw [List.mem_append, not_or] at hid
    rw [h'.entry_eq id hid.2, h.entry_eq id hid.1]
  alike id c above hentry := by
    obtain ⟨c', above', hentry', halike⟩ := h.alike id c above hentry
    obtain ⟨c'', above'', hentry'', halike'⟩ := h'.alike id c' above' hentry'
    exact ⟨c'', above'', hentry'', halike.trans halike'⟩

/-- What differs at some nodes differs at most at more. -/
theorem mono (h : Differs owners members doc doc') (howners : owners ⊆ owners')
    (hmembers : members ⊆ members') : Differs owners' members' doc doc' :=
  { h with
    childIds_eq := fun id hid => h.childIds_eq id fun hmem => hid (howners hmem)
    entry_eq := fun id hid => h.entry_eq id fun hmem => hid (hmembers hmem) }

/-- A family away from the edit is kept. -/
theorem keeps (h : Differs owners members doc doc') {fam : Family} (hkeeps : doc.Keeps fam)
    (howner : fam.id ∉ owners) (hmembers : ∀ x ∈ fam.members, x ∉ members) : doc'.Keeps fam := by
  refine ⟨?_, fun child hchild => ?_⟩
  · rw [h.childIds_eq fam.id howner, hkeeps.childIds]
  · rw [h.entry_eq child.1 (hmembers child.1 (List.mem_map_of_mem hchild)),
      hkeeps.entry child hchild]

/-- A node away from the edit is not touched. -/
theorem getElem?_eq (h : Differs owners members doc doc') {id : NodeId} (howner : id ∉ owners)
    (hmember : id ∉ members) : doc'.nodes[id]? = doc.nodes[id]? := by
  have hentry := h.entry_eq id hmember
  cases hnode : doc.nodes[id]? with
  | none =>
    rw [entry, entry, hnode, Option.map_none, Option.map_eq_none_iff] at hentry
    exact hentry
  | some node =>
    obtain ⟨hold, hchildren⟩ := getElem?_iff.mp hnode
    exact getElem?_iff.mpr ⟨hentry.trans hold, (h.childIds_eq id howner).trans hchildren⟩

/-- The entries of nodes that are no members stay. -/
theorem entries (h : Differs owners members doc doc') {owner : NodeId}
    {l : List (NodeId × Content)}
    (hentry : ∀ child ∈ l, doc.entry child.1 = some (child.2, some owner))
    (hmembers : ∀ child ∈ l, child.1 ∉ members) :
    ∀ child ∈ l, doc'.entry child.1 = some (child.2, some owner) := by
  intro child hchild
  rw [h.entry_eq child.1 (hmembers child hchild), hentry child hchild]

end Differs

/-- Altering a node adds none. -/
theorem size_altered (doc : Document) (id : NodeId) (change : Node → Node) :
    (doc.altered id change).size = doc.size := by
  rw [size, altered, Array.size_modify, size]

/-- Altering a node leaves the entries of the others. -/
theorem entry_altered {id j : NodeId} {change : Node → Node} (hne : j ≠ id) :
    (doc.altered id change).entry j = doc.entry j := by
  rw [entry, getElem?_altered, if_neg (Ne.symm hne), entry]

/-- Altering a node leaves the children of the others. -/
theorem childIds_altered {id j : NodeId} {change : Node → Node} (hne : j ≠ id) :
    (doc.altered id change).childIds j = doc.childIds j := by
  rw [childIds, getElem?_altered, if_neg (Ne.symm hne), childIds]

/-- Giving a node another child list changes no entry. -/
theorem differs_altered_children (doc : Document) (id : NodeId) (children : List NodeId) :
    Differs [id] [] doc (doc.altered id fun node => { node with children }) := by
  have hentry : ∀ j, (doc.altered id fun node => { node with children }).entry j = doc.entry j := by
    intro j
    rw [entry, getElem?_altered, entry]
    split
    · rw [Option.map_map]
      rfl
    · rfl
  refine ⟨rfl, size_altered .., fun j hj => childIds_altered (by simpa using hj),
    fun j _ => hentry j, fun j c above h => ⟨c, above, ?_, .refl c⟩⟩
  rw [hentry, h]

/-- A change of a node that keeps its child list changes no child list. -/
theorem differs_altered_entry (doc : Document) (id : NodeId) {change : Node → Node}
    (hchildren : ∀ node, (change node).children = node.children)
    (halike : ∀ node : Node, node.toContent.Alike (change node).toContent) :
    Differs [] [id] doc (doc.altered id change) := by
  refine ⟨rfl, size_altered .., fun j _ => ?_, fun j hj => entry_altered (by simpa using hj),
    fun j c above h => ?_⟩
  · rw [childIds, getElem?_altered, childIds]
    split
    · rw [Option.map_map]
      congr 1
      exact funext hchildren
    · rfl
  · obtain ⟨node, hnode, rfl, rfl⟩ := exists_node_of_entry h
    rw [entry, getElem?_altered, hnode]
    split
    · exact ⟨_, _, rfl, halike node⟩
    · exact ⟨_, _, rfl, .refl _⟩

/-! ## Parents and child lists -/

/-- The parent link of a node; none if there is no such node. -/
def parentOf (doc : Document) (id : NodeId) : Option NodeId :=
  doc.nodes[id]?.bind (·.parent)

/-- The child list of a node; empty if there is no such node. -/
def childrenOf (doc : Document) (id : NodeId) : List NodeId :=
  (doc.childIds id).getD []

/-- The parent of a node is that of its entry. -/
theorem parentOf_of_entry {id : NodeId} {c : Content} {above : Option NodeId}
    (h : doc.entry id = some (c, above)) : doc.parentOf id = above := by
  obtain ⟨node, hnode, -, rfl⟩ := exists_node_of_entry h
  rw [parentOf, hnode, Option.bind_some]

/-- A node with an entry is in the table. -/
theorem lt_size_of_entry {id : NodeId} {x : Content × Option NodeId} (h : doc.entry id = some x) :
    id < doc.size := by
  obtain ⟨node, hnode, -⟩ := Option.map_eq_some_iff.mp h
  exact (Array.getElem?_eq_some_iff.mp hnode).1

/-- The document without the parent links of the listed nodes. -/
def orphaned (doc : Document) (ids : List NodeId) : Document :=
  { doc with nodes := doc.nodes.mapIdx fun id node =>
      if id ∈ ids then { node with parent := none } else node }

/-- The document with some ids dropped from the child lists of the owners. -/
def pruned (doc : Document) (gone owners : List NodeId) : Document :=
  { doc with nodes := doc.nodes.mapIdx fun id node =>
      if id ∈ owners then { node with children := node.children.filter (!gone.contains ·) }
      else node }

/-- Orphaned nodes lose their parent, and the others nothing. -/
theorem getElem?_orphaned (doc : Document) (ids : List NodeId) (id : NodeId) :
    (doc.orphaned ids).nodes[id]? = doc.nodes[id]?.map fun node =>
      if id ∈ ids then { node with parent := none } else node :=
  Array.getElem?_mapIdx

/-- Pruned nodes lose the children that are gone, and the others nothing. -/
theorem getElem?_pruned (doc : Document) (gone owners : List NodeId) (id : NodeId) :
    (doc.pruned gone owners).nodes[id]? = doc.nodes[id]?.map fun node =>
      if id ∈ owners then { node with children := node.children.filter (!gone.contains ·) }
      else node :=
  Array.getElem?_mapIdx

/-- Documents are equal if they have the same root and the same nodes. -/
theorem ext_nodes (hroot : doc.root = doc'.root)
    (hnodes : ∀ id : NodeId, doc.nodes[id]? = doc'.nodes[id]?) : doc = doc' := by
  obtain ⟨nodes, root⟩ := doc
  obtain ⟨nodes', root'⟩ := doc'
  obtain rfl : root = root' := hroot
  obtain rfl : nodes = nodes' := Array.ext_getElem? hnodes
  rfl

/-- Taking the parent of one node away leaves those of the others. -/
theorem parentOf_altered_parent (doc : Document) (id j : NodeId) :
    (doc.altered id fun node => { node with parent := none }).parentOf j =
      if id = j then none else doc.parentOf j := by
  rw [parentOf, getElem?_altered]
  split
  · cases doc.nodes[j]? <;> rfl
  · rfl

/-- The parent links of listed nodes can be removed one after the other. -/
theorem orphaned_cons (doc : Document) (id : NodeId) (ids : List NodeId) :
    doc.orphaned (id :: ids) =
      (doc.altered id fun node => { node with parent := none }).orphaned ids := by
  refine ext_nodes rfl fun j => ?_
  rw [getElem?_orphaned, getElem?_orphaned, getElem?_altered]
  by_cases heq : id = j
  · subst heq
    cases doc.nodes[id]? <;> simp
  · simp [heq, Ne.symm heq]

theorem orphaned_nil (doc : Document) : doc.orphaned [] = doc := by
  refine ext_nodes rfl fun j => ?_
  rw [getElem?_orphaned]
  simp

theorem pruned_nil (doc : Document) (gone : List NodeId) : doc.pruned gone [] = doc := by
  refine ext_nodes rfl fun j => ?_
  rw [getElem?_pruned]
  simp

/-- Child lists can be pruned one after the other. -/
theorem pruned_cons (doc : Document) {gone owners : List NodeId} {owner : NodeId} {node : Node}
    (hnode : doc.nodes[owner]? = some node) (hnew : owner ∉ owners) :
    doc.pruned gone (owner :: owners) = (doc.altered owner fun other => { other with
      children := node.children.filter (!gone.contains ·) }).pruned gone owners := by
  refine ext_nodes rfl fun j => ?_
  rw [getElem?_pruned, getElem?_pruned, getElem?_altered]
  by_cases heq : owner = j
  · subst heq
    simp [hnode, hnew]
  · simp [heq, Ne.symm heq]

/-- Orphaned nodes keep their children. -/
theorem childIds_orphaned (doc : Document) (ids : List NodeId) (id : NodeId) :
    (doc.orphaned ids).childIds id = doc.childIds id := by
  rw [childIds, getElem?_orphaned, Option.map_map, childIds]
  congr 1
  funext node
  rw [Function.comp_apply]
  split <;> rfl

/-- Nothing but orphaned nodes differs. -/
theorem differs_orphaned (doc : Document) (ids : List NodeId) :
    Differs [] ids doc (doc.orphaned ids) := by
  refine ⟨rfl, Array.size_mapIdx, fun id _ => childIds_orphaned doc ids id, fun id hid => ?_,
    fun id c above h => ?_⟩
  · rw [entry, getElem?_orphaned, entry]
    simp [hid]
  · obtain ⟨node, hnode, rfl, rfl⟩ := exists_node_of_entry h
    rw [entry, getElem?_orphaned, hnode]
    by_cases hid : id ∈ ids
    · exact ⟨_, none, by simp [hid], .refl _⟩
    · exact ⟨_, node.parent, by simp [hid], .refl _⟩

/-- Pruned nodes hold what they held. -/
theorem entry_pruned (doc : Document) (gone owners : List NodeId) (id : NodeId) :
    (doc.pruned gone owners).entry id = doc.entry id := by
  rw [entry, getElem?_pruned, Option.map_map, entry]
  congr 1
  funext node
  rw [Function.comp_apply]
  split <;> rfl

/-- Pruned nodes list the children that are not gone. -/
theorem childIds_pruned (doc : Document) (gone owners : List NodeId) (id : NodeId) :
    (doc.pruned gone owners).childIds id = (doc.childIds id).map fun children =>
      if id ∈ owners then children.filter (!gone.contains ·) else children := by
  rw [childIds, getElem?_pruned, Option.map_map, childIds, Option.map_map]
  congr 1
  funext node
  rw [Function.comp_apply, Function.comp_apply]
  split <;> rfl

/-- Nothing but the children of pruned nodes differs. -/
theorem differs_pruned (doc : Document) (gone owners : List NodeId) :
    Differs owners [] doc (doc.pruned gone owners) := by
  refine ⟨rfl, Array.size_mapIdx, fun id hid => ?_, fun id _ => entry_pruned doc gone owners id,
    fun id c above h => ⟨c, above, by rw [entry_pruned, h], .refl c⟩⟩
  rw [childIds_pruned]
  simp [hid]

end Document

namespace Edit

open Document

variable {α β : Type} {doc doc' : Document}

/-! ## Running edits -/

/-- **A change goes on with what the one before it left.** -/
theorem apply_bind {edit : Edit α} {a : α} (h : edit.apply doc = (.ok a, doc'))
    (next : α → Edit β) : (edit >>= next).apply doc = (next a).apply doc' := by
  change (ExceptT.run (edit >>= next)).run doc = _
  rw [ExceptT.run_bind, StateT.run_bind]
  change (ExceptT.run edit).run doc = _ at h
  rw [h]
  rfl

/-- Looking at a document leaves it as it is. -/
theorem apply_read {look : Document → Except DocumentError α} {a : α} (h : look doc = .ok a) :
    (read look).apply doc = (.ok a, doc) := by
  rw [read, apply_bind (rfl : (get : Edit Document).apply doc = (.ok doc, doc)), h]
  rfl

theorem apply_node {id : NodeId} {node : Node} (h : doc.nodes[id]? = some node) :
    (Edit.node id).apply doc = (.ok node, doc) :=
  apply_read (node_of_getElem? h)

/-- Altering a node of the table succeeds. -/
theorem apply_alter {id : NodeId} {node : Node} (h : doc.nodes[id]? = some node)
    (change : Node → Node) : (alter id change).apply doc = (.ok (), doc.altered id change) := by
  rw [alter, apply_bind (apply_node h)]
  rfl

/-! ## Family by family -/

/-- A step at the node of a family gives a number and a document of which something holds, and
leaves all other families. -/
def StepsTo (step : NodeId → Edit Nat) (Counts : Family → Nat → Prop)
    (Ends : Family → Document → Prop) : Prop :=
  ∀ (fam : Family) (doc : Document), doc.Keeps fam → fam.members.Nodup →
    (∃ c above, doc.entry fam.id = some (c, above) ∧ fam.content.Alike c) →
    ∃ n doc', (step fam.id).apply doc = (.ok n, doc') ∧ Counts fam n ∧ Ends fam doc' ∧
      Differs [fam.id] fam.members doc doc'

/-- What holds of a family in a document still holds when other families change. -/
def IsLocal (Ends : Family → Document → Prop) : Prop :=
  ∀ {owners members : List NodeId} {doc doc' : Document} {fam : Family},
    Differs owners members doc doc' → fam.id ∉ owners → (∀ x ∈ fam.members, x ∉ members) →
    Ends fam doc → Ends fam doc'

/-- **An edit that goes family by family** does to each what a step does to it alone, and adds up
the numbers. -/
theorem exists_apply_each {step : NodeId → Edit Nat} {all : List NodeId → Edit Nat}
    {Counts : Family → Nat → Prop} {Ends : Family → Document → Prop}
    (hstep : StepsTo step Counts Ends) (hlocal : IsLocal Ends) (hnil : all [] = pure 0)
    (hcons : ∀ id ids, all (id :: ids) = do return (← step id) + (← all ids))
    {fams : List Family} (hids : (fams.map (·.id)).Nodup)
    (hmembers : (fams.flatMap (·.members)).Nodup)
    (hkeeps : ∀ fam ∈ fams, doc.Keeps fam)
    (hentry : ∀ fam ∈ fams, ∃ c above, doc.entry fam.id = some (c, above) ∧ fam.content.Alike c) :
    ∃ counts doc',
      (all (fams.map (·.id))).apply doc = (.ok (counts.foldr (· + ·) 0), doc') ∧
      List.Forall₂ Counts fams counts ∧ (∀ fam ∈ fams, Ends fam doc') ∧
      Differs (fams.map (·.id)) (fams.flatMap (·.members)) doc doc' := by
  induction fams generalizing doc with
  | nil => exact ⟨[], doc, by rw [List.map_nil, hnil]; rfl, .nil, by simp, .refl doc⟩
  | cons fam fams ih =>
    rw [List.map_cons, List.nodup_cons] at hids
    rw [List.flatMap_cons, List.nodup_append] at hmembers
    obtain ⟨hmembers, hmembers', hdisjoint⟩ := hmembers
    have hother : ∀ fam' ∈ fams, fam'.id ≠ fam.id := by
      intro fam' hfam' heq
      exact hids.1 (List.mem_map.mpr ⟨fam', hfam', heq⟩)
    have haway : ∀ fam' ∈ fams, ∀ x ∈ fam'.members, x ∉ fam.members := by
      intro fam' hfam' x hx hx'
      exact hdisjoint x hx' x (List.mem_flatMap.mpr ⟨fam', hfam', hx⟩) rfl
    obtain ⟨n, doc₁, hrun, hcounts, hends, hdiffers⟩ :=
      hstep fam doc (hkeeps fam (by simp)) hmembers (hentry fam (by simp))
    -- The step stays inside its own family, so the others can still be stepped through.
    have hkeeps₁ : ∀ fam' ∈ fams, doc₁.Keeps fam' := fun fam' hfam' =>
      hdiffers.keeps (hkeeps fam' (by simp [hfam'])) (by simpa using hother fam' hfam')
        (haway fam' hfam')
    have hentry₁ : ∀ fam' ∈ fams, ∃ c above,
        doc₁.entry fam'.id = some (c, above) ∧ fam'.content.Alike c := by
      intro fam' hfam'
      obtain ⟨c, above, hc, halike⟩ := hentry fam' (by simp [hfam'])
      obtain ⟨c', above', hc', halike'⟩ := hdiffers.alike _ _ _ hc
      exact ⟨c', above', hc', halike.trans halike'⟩
    obtain ⟨counts, doc₂, hrun', hcounts', hends', hdiffers'⟩ := ih hids.2 hmembers' hkeeps₁ hentry₁
    refine ⟨n :: counts, doc₂, ?_, .cons hcounts hcounts', ?_, hdiffers.trans hdiffers'⟩
    · rw [List.map_cons, hcons, apply_bind hrun, apply_bind hrun']
      rfl
    · intro fam' hfam'
      rcases List.mem_cons.mp hfam' with rfl | hfam'
      · exact hlocal hdiffers' hids.1 (fun x hx hmem => hdisjoint x hx x hmem rfl) hends
      · exact hends' fam' hfam'

/-- A step at the node of a family leaves a part of the family, and all other families. -/
def StepsFamily (step : NodeId → Edit Nat) (Left : Family → List (NodeId × Content) → Prop) :
    Prop :=
  ∀ (fam : Family) (doc : Document), doc.Keeps fam → fam.members.Nodup →
    (∃ c above, doc.entry fam.id = some (c, above) ∧ fam.content.Alike c) →
    ∃ n doc', (step fam.id).apply doc = (.ok n, doc') ∧ doc'.KeepsLeft false Left fam ∧
      Differs [fam.id] fam.members doc doc'

/-- What is left of a family depends on its own nodes only. -/
theorem isLocal_keepsLeft (Left : Family → List (NodeId × Content) → Prop) :
    IsLocal fun fam doc => doc.KeepsLeft false Left fam := by
  rintro owners members doc doc' fam hdiffers howner hmembers ⟨children, hthins, hleft, hkeeps⟩
  refine ⟨children, hthins, hleft, hdiffers.keeps hkeeps howner fun x hx => ?_⟩
  exact hmembers x (hthins.sublist_map.subset hx)

/-- An edit that goes family by family leaves of each what a step does of it alone. -/
theorem exists_apply_families {step : NodeId → Edit Nat} {all : List NodeId → Edit Nat}
    {Left : Family → List (NodeId × Content) → Prop} (hstep : StepsFamily step Left)
    (hnil : all [] = pure 0)
    (hcons : ∀ id ids, all (id :: ids) = do return (← step id) + (← all ids))
    {fams : List Family} (hids : (fams.map (·.id)).Nodup)
    (hmembers : (fams.flatMap (·.members)).Nodup)
    (hkeeps : ∀ fam ∈ fams, doc.Keeps fam)
    (hentry : ∀ fam ∈ fams, ∃ c above, doc.entry fam.id = some (c, above) ∧ fam.content.Alike c) :
    ∃ n doc', (all (fams.map (·.id))).apply doc = (.ok n, doc') ∧
      (∀ fam ∈ fams, doc'.KeepsLeft false Left fam) ∧
      Differs (fams.map (·.id)) (fams.flatMap (·.members)) doc doc' := by
  have hsteps : StepsTo step (fun _ _ => True) fun fam doc => doc.KeepsLeft false Left fam := by
    intro fam doc hkeeps hnodup hentry
    obtain ⟨n, doc', hrun, hleft, hdiffers⟩ := hstep fam doc hkeeps hnodup hentry
    exact ⟨n, doc', hrun, trivial, hleft, hdiffers⟩
  obtain ⟨_, doc', hrun, _, hleft, hdiffers⟩ :=
    exists_apply_each hsteps (isLocal_keepsLeft Left) hnil hcons hids hmembers hkeeps hentry
  exact ⟨_, doc', hrun, hleft, hdiffers⟩

/-! ## Taking nodes out -/

/-- No id is listed twice once repetitions are gone. -/
theorem nodup_eraseDups (ids : List NodeId) : ids.eraseDups.Nodup := by
  induction hn : ids.length using Nat.strong_induction_on generalizing ids with
  | _ n ih =>
    cases ids with
    | nil => exact List.nodup_nil
    | cons id ids =>
      have hless : (ids.filter fun other => !other == id).length < n := by
        rw [← hn, List.length_cons]
        exact Nat.lt_succ_of_le (List.length_filter_le _ _)
      rw [List.eraseDups_cons, List.nodup_cons, List.mem_eraseDups]
      exact ⟨by simp, ih _ hless _ rfl⟩

/-- **The parent links of listed nodes are removed**, and each that there was is reported once. -/
theorem exists_apply_release {ids : List NodeId} (h : ∀ id ∈ ids, id < doc.size) :
    ∃ links, (release ids).apply doc = (.ok links, doc.orphaned ids) ∧ (links.map (·.1)).Nodup ∧
      ∀ link, link ∈ links ↔ link.1 ∈ ids ∧ doc.parentOf link.1 = some link.2 := by
  induction ids generalizing doc with
  | nil => exact ⟨[], by rw [orphaned_nil]; rfl, List.nodup_nil, by simp⟩
  | cons id ids ih =>
    obtain ⟨node, hnode⟩ : ∃ node, doc.nodes[id]? = some node :=
      ⟨_, Array.getElem?_eq_getElem (h id List.mem_cons_self)⟩
    have hhere : doc.parentOf id = node.parent := by rw [parentOf, hnode]; rfl
    obtain ⟨links, hrun, hnodup, hlinks⟩ :=
      @ih (doc.altered id fun node => { node with parent := none }) fun other hother => by
        rw [size_altered]
        exact h other (List.mem_cons_of_mem id hother)
    rw [← orphaned_cons] at hrun
    simp only [parentOf_altered_parent] at hlinks
    rw [release, apply_bind (apply_node hnode)]
    cases hparent : node.parent with
    | none =>
      -- There is no link to remove, so the step leaves the document as it is.
      have hsame : doc.altered id (fun node => { node with parent := none }) = doc := by
        refine altered_of_eq_self fun other hother => ?_
        rw [hnode] at hother
        cases hother
        rw [← hparent]
      rw [hsame] at hrun
      refine ⟨links, hrun, hnodup, fun link => ?_⟩
      rw [hlinks, List.mem_cons]
      by_cases heq : id = link.1
      · rw [if_pos heq, ← heq, hhere, hparent]
        simp
      · rw [if_neg heq]
        simp [Ne.symm heq]
    | some above =>
      refine ⟨(id, above) :: links, ?_, ?_, fun link => ?_⟩
      · simp only
        rw [apply_bind (apply_alter hnode _), apply_bind hrun]
        rfl
      · rw [List.map_cons, List.nodup_cons]
        refine ⟨fun hmem => ?_, hnodup⟩
        obtain ⟨link, hlink, heq⟩ := List.mem_map.mp hmem
        have hgone := ((hlinks link).mp hlink).2
        rw [if_pos heq.symm] at hgone
        cases hgone
      · rw [List.mem_cons, hlinks, List.mem_cons, Prod.ext_iff]
        by_cases heq : id = link.1
        · rw [if_pos heq, ← heq, hhere, hparent]
          simp [eq_comm]
        · rw [if_neg heq]
          simp [Ne.symm heq]

/-- **Child lists are pruned**, and the entries that go are counted. -/
theorem apply_prune (gone : List NodeId) {owners : List NodeId} (hnodup : owners.Nodup)
    (h : ∀ owner ∈ owners, owner < doc.size) :
    (prune gone owners).apply doc =
      (.ok (owners.flatMap fun owner => (doc.childrenOf owner).filter gone.contains).length,
        doc.pruned gone owners) := by
  induction owners generalizing doc with
  | nil => rw [pruned_nil]; rfl
  | cons owner owners ih =>
    obtain ⟨hnew, hnodup⟩ := List.nodup_cons.mp hnodup
    obtain ⟨node, hnode⟩ : ∃ node, doc.nodes[owner]? = some node :=
      ⟨_, Array.getElem?_eq_getElem (h owner List.mem_cons_self)⟩
    have hhere : doc.childrenOf owner = node.children := by rw [childrenOf, childIds, hnode]; rfl
    have hrun := @ih (doc.altered owner fun other => { other with
        children := node.children.filter (!gone.contains ·) }) hnodup fun other hother => by
      rw [size_altered]
      exact h other (List.mem_cons_of_mem owner hother)
    have hother : ∀ other ∈ owners, (doc.altered owner fun other => { other with
        children := node.children.filter (!gone.contains ·) }).childrenOf other =
          doc.childrenOf other := by
      intro other hother
      rw [childrenOf, childIds_altered (by rintro rfl; exact hnew hother), childrenOf]
    have hlength := List.length_eq_length_filter_add (l := node.children) gone.contains
    rw [← pruned_cons doc hnode hnew] at hrun
    rw [List.flatMap_congr fun other hmem => by rw [hother other hmem]] at hrun
    rw [prune, apply_bind (apply_node hnode), apply_bind (apply_alter hnode _), apply_bind hrun,
      List.flatMap_cons, List.length_append, hhere, hlength, Nat.add_sub_cancel]
    rfl

/-- **Taking nodes out**: the parent links of the listed nodes are removed, and they go from the child
lists of the parents that they had. -/
theorem exists_apply_detach {ids : List NodeId} (h : ∀ id ∈ ids, id < doc.size)
    (habove : ∀ id ∈ ids, ∀ above, doc.parentOf id = some above → above < doc.size) :
    ∃ gone owners, (detach ids).apply doc =
        (.ok (owners.flatMap fun owner => (doc.childrenOf owner).filter gone.contains).length,
          (doc.orphaned ids).pruned gone owners) ∧
      gone.Nodup ∧ owners.Nodup ∧
      (∀ id, id ∈ gone ↔ id ∈ ids ∧ (doc.parentOf id).isSome) ∧
      ∀ owner, owner ∈ owners ↔ ∃ id ∈ ids, doc.parentOf id = some owner := by
  obtain ⟨links, hrelease, hnodup, hlinks⟩ := exists_apply_release h
  have howners : ∀ owner, owner ∈ (links.map (·.2)).eraseDups ↔
      ∃ id ∈ ids, doc.parentOf id = some owner := by
    intro owner
    rw [List.mem_eraseDups, List.mem_map]
    constructor
    · rintro ⟨link, hlink, rfl⟩
      exact ⟨link.1, (hlinks link).mp hlink⟩
    · rintro ⟨id, hid, hparent⟩
      exact ⟨(id, owner), (hlinks (id, owner)).mpr ⟨hid, hparent⟩, rfl⟩
  have hsize : ∀ owner ∈ (links.map (·.2)).eraseDups, owner < (doc.orphaned ids).size := by
    intro owner howner
    obtain ⟨id, hid, hparent⟩ := (howners owner).mp howner
    rw [(differs_orphaned doc ids).size_eq]
    exact habove id hid owner hparent
  refine ⟨links.map (·.1), (links.map (·.2)).eraseDups, ?_, hnodup, nodup_eraseDups _, ?_, howners⟩
  · rw [detach, apply_bind hrelease, apply_prune _ (nodup_eraseDups _) hsize]
    simp only [childrenOf, childIds_orphaned]
  · intro id
    rw [List.mem_map, Option.isSome_iff_exists]
    constructor
    · rintro ⟨link, hlink, rfl⟩
      obtain ⟨hid, hparent⟩ := (hlinks link).mp hlink
      exact ⟨hid, link.2, hparent⟩
    · rintro ⟨hid, above, hparent⟩
      exact ⟨(id, above), (hlinks (id, above)).mpr ⟨hid, hparent⟩, rfl⟩

/-- **Taking nodes out of the tree** takes them out of their families. -/
theorem exists_apply_detach_families {fams : List Family} {ids : List NodeId}
    (hkeeps : ∀ fam ∈ fams, doc.Keeps fam)
    (hmembers : ∀ id ∈ ids, ∃ fam ∈ fams, id ∈ fam.members) :
    ∃ n doc' owners, (detach ids).apply doc = (.ok n, doc') ∧ Differs owners ids doc doc' ∧
      ∀ fam ∈ fams, doc'.Keeps
        { fam with children := fam.children.filter fun child => !ids.contains child.1 } := by
  have hentry : ∀ id ∈ ids, ∃ c fam, fam ∈ fams ∧ doc.entry id = some (c, some fam.id) := by
    intro id hid
    obtain ⟨fam, hfam, hmem⟩ := hmembers id hid
    obtain ⟨child, hchild, rfl⟩ := List.mem_map.mp hmem
    exact ⟨child.2, fam, hfam, (hkeeps fam hfam).entry child hchild⟩
  obtain ⟨gone, owners, hrun, -, -, hgone, howners⟩ := exists_apply_detach
    (fun id hid => let ⟨_, _, _, hc⟩ := hentry id hid; lt_size_of_entry hc)
    (fun id hid above habove => by
      obtain ⟨c, fam, hfam, hc⟩ := hentry id hid
      rw [parentOf_of_entry hc] at habove
      cases habove
      obtain ⟨node, hnode, -⟩ := Option.map_eq_some_iff.mp (hkeeps fam hfam).childIds
      exact (Array.getElem?_eq_some_iff.mp hnode).1)
  have hdiffers := (differs_orphaned doc ids).trans (differs_pruned (doc.orphaned ids) gone owners)
  refine ⟨_, _, owners, hrun, hdiffers.mono (by simp) (by simp), fun fam hfam => ?_⟩
  have hparent : ∀ child ∈ fam.children, doc.parentOf child.1 = some fam.id :=
    fun child hchild => parentOf_of_entry ((hkeeps fam hfam).entry child hchild)
  refine ⟨?_, fun child hchild => ?_⟩
  · have hleft : Family.members
        { fam with children := fam.children.filter fun child => !ids.contains child.1 } =
          fam.members.filter fun id => !ids.contains id := by
      rw [Family.members, Family.members, List.filter_map]
      rfl
    rw [childIds_pruned, childIds_orphaned, (hkeeps fam hfam).childIds, hleft, Option.map_some,
      Option.some.injEq]
    split
    · refine List.filter_congr fun id hid => ?_
      obtain ⟨child, hchild, rfl⟩ := List.mem_map.mp hid
      rw [Bool.not_inj_iff, Bool.eq_iff_iff, List.contains_iff_mem, List.contains_iff_mem, hgone,
        hparent child hchild]
      simp
    · next hout =>
      -- No child of the family goes, or the family would be among the pruned ones.
      refine (List.filter_eq_self.mpr fun id hid => ?_).symm
      obtain ⟨child, hchild, rfl⟩ := List.mem_map.mp hid
      rw [Bool.not_eq_true', Bool.eq_false_iff, ne_eq, List.contains_iff_mem]
      exact fun hmem => hout ((howners fam.id).mpr ⟨child.1, hmem, hparent child hchild⟩)
  · rw [List.mem_filter, Bool.not_eq_true', Bool.eq_false_iff, ne_eq, List.contains_iff_mem]
      at hchild
    rw [entry_pruned, (differs_orphaned doc ids).entry_eq _ hchild.2,
      (hkeeps fam hfam).entry child hchild.1]

theorem apply_detach_nil (doc : Document) : (detach []).apply doc = (.ok 0, doc) := rfl

/-! ## Joining texts -/

/-- Joining texts among siblings leaves what it should, given the open text before them: the texts
that go say nothing any more and have no parent. -/
def JoinsTexts (owner : NodeId) (open? : Option (NodeId × Content)) (l : List (NodeId × Content))
    (doc : Document) : Prop :=
  ∃ kept removed doc', (mergeTexts (open?.map (·.1)) (l.map (·.1))).apply doc =
      (.ok (kept, removed), doc') ∧
    (Siblings.joinNodes open? l).map (·.1) = (open?.map (·.1)).toList ++ kept ∧
    removed + kept.length = l.length ∧
    (∀ child ∈ Siblings.joinNodes open? l, doc'.entry child.1 = some (child.2, some owner)) ∧
    (∀ child ∈ l, child.1 ∉ (Siblings.joinNodes open? l).map (·.1) →
      doc'.entry child.1 = some ({ child.2 with value := "" }, none)) ∧
    Differs [] ((open?.toList ++ l).map (·.1)) doc doc'

section JoinsTexts

variable {owner id : NodeId} {c : Content} {node : Node} {open? : Option (NodeId × Content)}
  {l : List (NodeId × Content)}

/-- Where no sibling is left, the text that is open is joined already. -/
theorem joinsTexts_nil
    (hentry : ∀ child ∈ open?.toList, doc.entry child.1 = some (child.2, some owner)) :
    JoinsTexts owner open? [] doc := by
  refine ⟨[], 0, doc, ?_, ?_, rfl, hentry, by simp, (Differs.refl doc).mono ?_ ?_⟩
  · rw [List.map_nil, mergeTexts]
    rfl
  · cases open? <;> rfl
  · exact List.Subset.refl _
  · exact List.nil_subset _

/-- A node that is no text stays, and the open text before it is done. -/
theorem joinsTexts_cons_of_not_text (hnode : doc.nodes[id]? = some node)
    (hcontent : node.toContent = c) (htext : c.isText = false)
    (hopen : ∀ child ∈ open?.toList ++ [(id, c)], doc.entry child.1 = some (child.2, some owner))
    (haway : ∀ child ∈ open?.toList ++ [(id, c)], child.1 ∉ l.map (·.1))
    (h : JoinsTexts owner none l doc) : JoinsTexts owner open? ((id, c) :: l) doc := by
  obtain ⟨kept, removed, doc', hrun, hids, hcount, hentry, hgone, hdiffers⟩ := h
  have hleft : Siblings.joinNodes open? ((id, c) :: l) =
      (open?.toList ++ [(id, c)]) ++ Siblings.joinNodes none l := by
    rw [Siblings.joinNodes_cons_of_not_text htext, List.append_assoc, List.singleton_append]
  rw [JoinsTexts, hleft]
  refine ⟨id :: kept, removed, doc', ?_, ?_, ?_, ?_, ?_, hdiffers.mono (List.Subset.refl _) ?_⟩
  · have hnot : (!node.isText) = true := by rw [hcontent, htext]; rfl
    rw [List.map_cons, mergeTexts, apply_bind (apply_node hnode), if_pos hnot]
    rw [Option.map_none] at hrun
    rw [apply_bind hrun]
    rfl
  · rw [Option.map_none, Option.toList_none, List.nil_append] at hids
    rw [List.map_append, hids]
    cases open? <;> simp
  · rw [List.length_cons, List.length_cons, ← Nat.add_assoc, hcount]
  · intro child hchild
    rcases List.mem_append.mp hchild with hchild | hchild
    · exact hdiffers.entries hopen (by simpa using haway) child hchild
    · exact hentry child hchild
  · intro child hchild hnot
    rw [List.map_append, List.mem_append, not_or] at hnot
    rcases List.mem_cons.mp hchild with rfl | hchild
    · exact absurd (List.mem_map_of_mem (by simp)) hnot.1
    · exact hgone child hchild hnot.2
  · intro x hx
    rw [Option.toList_none, List.nil_append] at hx
    rw [List.map_append, List.map_cons]
    exact List.mem_append_right _ (List.mem_cons_of_mem _ hx)

/-- An empty text goes. -/
theorem joinsTexts_cons_of_empty (hnode : doc.nodes[id]? = some node)
    (hcontent : node.toContent = c) (htext : c.isText = true) (hempty : c.value.isEmpty = true)
    (haway : id ∉ (open?.toList ++ l).map (·.1))
    (h : JoinsTexts owner open? l (doc.altered id fun node => { node with parent := none })) :
    JoinsTexts owner open? ((id, c) :: l) doc := by
  obtain ⟨kept, removed, doc', hrun, hids, hcount, hentry, hgone, hdiffers⟩ := h
  have hhere : Differs [] [id] doc (doc.altered id fun node => { node with parent := none }) :=
    differs_altered_entry doc id (fun _ => rfl) fun _ => .refl _
  rw [JoinsTexts, Siblings.joinNodes_cons_of_empty htext hempty]
  refine ⟨kept, removed + 1, doc', ?_, hids, ?_, hentry, ?_,
    (hhere.trans hdiffers).mono (List.Subset.refl _) ?_⟩
  · have hnot : ¬(!node.isText) = true := by rw [hcontent, htext]; simp
    have hvalue : node.value.isEmpty = true := by rw [hcontent]; exact hempty
    rw [List.map_cons, mergeTexts, apply_bind (apply_node hnode), if_neg hnot, if_pos hvalue,
      apply_bind (apply_alter hnode _), apply_bind hrun]
    rfl
  · rw [Nat.add_right_comm, hcount, List.length_cons]
  · intro child hchild hnot
    rcases List.mem_cons.mp hchild with rfl | hchild
    · have hvalue : c.value = "" := by simpa using hempty
      rw [hdiffers.entry_eq id haway, entry, getElem?_altered, if_pos rfl, hnode, Option.map_some,
        Option.map_some, hcontent, ← hvalue]
    · exact hgone child hchild hnot
  · intro x hx
    rw [List.map_append, List.map_cons, List.mem_append, List.mem_cons]
    rw [List.map_append, List.singleton_append, List.mem_cons, List.mem_append] at hx
    tauto

/-- A text with no text before it is open for the next one. -/
theorem joinsTexts_cons_of_first (hnode : doc.nodes[id]? = some node)
    (hcontent : node.toContent = c) (htext : c.isText = true) (hfilled : c.value.isEmpty = false)
    (h : JoinsTexts owner (some (id, c)) l doc) : JoinsTexts owner none ((id, c) :: l) doc := by
  obtain ⟨kept, removed, doc', hrun, hids, hcount, hentry, hgone, hdiffers⟩ := h
  rw [JoinsTexts, Siblings.joinNodes_cons_of_filled htext hfilled]
  refine ⟨id :: kept, removed, doc', ?_, hids, ?_, hentry, ?_, hdiffers⟩
  · have hnot : ¬(!node.isText) = true := by rw [hcontent, htext]; simp
    have hvalue : ¬node.value.isEmpty = true := by rw [hcontent, hfilled]; simp
    rw [Option.map_some] at hrun
    rw [List.map_cons, Option.map_none, mergeTexts, apply_bind (apply_node hnode), if_neg hnot,
      if_neg hvalue, apply_bind hrun]
    rfl
  · rw [List.length_cons, List.length_cons, ← Nat.add_assoc, hcount]
  · intro child hchild hnot
    rcases List.mem_cons.mp hchild with rfl | hchild
    · refine absurd ?_ hnot
      rw [Siblings.joinNodeTo, hids]
      exact List.mem_cons_self
    · exact hgone child hchild hnot

/-- The document in which one text is put at the end of another. -/
def putAtEnd (doc : Document) (first id : NodeId) (value : String) : Document :=
  (doc.altered id fun node => { node with parent := none, value := "" }).altered first
    fun node => { node with value := node.value ++ value }

/-- Putting a text at the end of another changes these two nodes only. -/
theorem differs_putAtEnd (doc : Document) (first id : NodeId) (value : String) :
    Differs [] [id, first] doc (putAtEnd doc first id value) := by
  have hgoes : Differs [] [id] doc
      (doc.altered id fun node => { node with parent := none, value := "" }) :=
    differs_altered_entry doc id (fun _ => rfl) fun _ => ⟨rfl, rfl⟩
  have hgrows : Differs [] [first]
      (doc.altered id fun node => { node with parent := none, value := "" })
      (putAtEnd doc first id value) :=
    differs_altered_entry _ first (fun _ => rfl) fun _ => ⟨rfl, rfl⟩
  exact hgoes.trans hgrows

/-- The first text grows. -/
theorem entry_putAtEnd {first : NodeId} {t : Content} {above : Option NodeId}
    (hfirst : doc.entry first = some (t, above)) (hne : first ≠ id) (value : String) :
    (putAtEnd doc first id value).entry first =
      some ({ t with value := t.value ++ value }, above) := by
  obtain ⟨node, hnode, rfl, rfl⟩ := exists_node_of_entry hfirst
  rw [putAtEnd, entry, getElem?_altered, if_pos rfl, getElem?_altered, if_neg (Ne.symm hne), hnode]
  rfl

/-- The second text is empty, and has no parent any more. -/
theorem entry_putAtEnd_of_ne {first : NodeId} (hnode : doc.nodes[id]? = some node)
    (hne : first ≠ id) (value : String) :
    (putAtEnd doc first id value).entry id =
      some ({ node.toContent with value := "" }, none) := by
  rw [putAtEnd, entry_altered (Ne.symm hne), entry, getElem?_altered, if_pos rfl, hnode]
  rfl

/-- A text with a text before it joins that one. -/
theorem joinsTexts_cons_of_next {first : NodeId} {t : Content}
    (hnode : doc.nodes[id]? = some node) (hcontent : node.toContent = c)
    (htext : c.isText = true) (hfilled : c.value.isEmpty = false)
    (hfirst : doc.entry first = some (t, some owner)) (hne : first ≠ id) (hid : id ∉ l.map (·.1))
    (h : JoinsTexts owner (some (first, { t with value := t.value ++ c.value })) l
      (putAtEnd doc first id c.value)) :
    JoinsTexts owner (some (first, t)) ((id, c) :: l) doc := by
  obtain ⟨kept, removed, doc', hrun, hids, hcount, hentry, hgone, hdiffers⟩ := h
  rw [JoinsTexts, Siblings.joinNodes_cons_of_filled htext hfilled]
  refine ⟨kept, removed + 1, doc', ?_, hids, ?_, hentry, ?_,
    ((differs_putAtEnd doc first id c.value).trans hdiffers).mono (List.Subset.refl _) ?_⟩
  · have hnot : ¬(!node.isText) = true := by rw [hcontent, htext]; simp
    have hvalue : ¬node.value.isEmpty = true := by rw [hcontent, hfilled]; simp
    obtain ⟨node', hnode', _⟩ := exists_node_of_entry hfirst
    have hnode₁ : (doc.altered id fun node => { node with parent := none, value := "" }).nodes[
        first]? = some node' := by
      rw [getElem?_altered, if_neg (Ne.symm hne), hnode']
    rw [Option.map_some] at hrun
    rw [List.map_cons, Option.map_some, mergeTexts, apply_bind (apply_node hnode), if_neg hnot,
      if_neg hvalue]
    simp only
    rw [apply_bind (apply_alter hnode _), apply_bind (apply_alter hnode₁ _), hcontent]
    rw [putAtEnd] at hrun
    rw [apply_bind hrun]
    rfl
  · rw [Nat.add_right_comm, hcount, List.length_cons]
  · intro child hchild hnot
    rcases List.mem_cons.mp hchild with rfl | hchild
    · have haway : id ∉ first :: l.map (·.1) := List.not_mem_cons_of_ne_of_not_mem (Ne.symm hne) hid
      rw [hdiffers.entry_eq id haway, entry_putAtEnd_of_ne hnode hne, hcontent]
    · exact hgone child hchild hnot
  · intro x hx
    simp only [Option.toList_some, List.singleton_append, List.map_cons, List.mem_append,
      List.mem_cons, List.not_mem_nil, or_false] at hx ⊢
    tauto

/-- **Joining texts among siblings** leaves the joined siblings. -/
theorem joinsTexts (hentry : ∀ child ∈ open?.toList ++ l,
      doc.entry child.1 = some (child.2, some owner))
    (hnodup : ((open?.toList ++ l).map (·.1)).Nodup) : JoinsTexts owner open? l doc := by
  induction l generalizing open? doc with
  | nil => exact joinsTexts_nil (by simpa using hentry)
  | cons child l ih =>
    obtain ⟨id, c⟩ := child
    obtain ⟨node, hnode, hcontent, _⟩ := exists_node_of_entry (hentry (id, c) (by simp))
    have hl : ∀ child ∈ l, doc.entry child.1 = some (child.2, some owner) :=
      fun child hchild => hentry child (by simp [hchild])
    rw [List.map_append, List.map_cons, List.nodup_append] at hnodup
    -- The ids are distinct, so no write hits a sibling that is still to come.
    obtain ⟨hnodup₁, hnodup₂, hdisjoint⟩ := hnodup
    obtain ⟨hid, hnodup₂⟩ := List.nodup_cons.mp hnodup₂
    have hopen : ∀ child ∈ open?.toList, child.1 ≠ id ∧ child.1 ∉ l.map (·.1) := by
      intro child hchild
      have hmem := List.mem_map_of_mem (f := (·.1)) hchild
      exact ⟨fun heq => hdisjoint _ hmem _ (by simp) heq, fun hmem' =>
        hdisjoint _ hmem _ (List.mem_cons_of_mem _ hmem') rfl⟩
    cases htext : c.isText with
    | false =>
      refine joinsTexts_cons_of_not_text hnode hcontent htext (fun child hchild => ?_)
        (fun child hchild => ?_) (ih hl hnodup₂)
      · refine hentry child ?_
        rw [← List.singleton_append, ← List.append_assoc]
        exact List.mem_append_left _ hchild
      · rcases List.mem_append.mp hchild with hchild | hchild
        · exact (hopen child hchild).2
        · cases List.mem_singleton.mp hchild
          exact hid
    | true =>
      cases hvalue : c.value.isEmpty with
      | true =>
        have hdiffers : Differs [] [id] doc
            (doc.altered id fun node => { node with parent := none }) :=
          differs_altered_entry doc id (fun _ => rfl) fun _ => .refl _
        have haway : id ∉ (open?.toList ++ l).map (·.1) := by
          rw [List.map_append, List.mem_append, not_or]
          exact ⟨fun hmem => hdisjoint id hmem id List.mem_cons_self rfl, hid⟩
        refine joinsTexts_cons_of_empty hnode hcontent htext hvalue haway (ih ?_ ?_)
        · refine hdiffers.entries (fun child hchild => hentry child ?_) fun child hchild => ?_
          · simp only [List.mem_append, List.mem_cons] at hchild ⊢
            tauto
          · rw [List.mem_singleton]
            exact fun heq => haway (List.mem_map.mpr ⟨child, hchild, heq⟩)
        · rw [List.map_append, List.nodup_append]
          exact ⟨hnodup₁, hnodup₂, fun a ha b hb => hdisjoint a ha b (List.mem_cons_of_mem _ hb)⟩
      | false =>
        cases open? with
        | none =>
          refine joinsTexts_cons_of_first hnode hcontent htext hvalue (ih hentry ?_)
          exact List.nodup_cons.mpr ⟨hid, hnodup₂⟩
        | some first =>
          obtain ⟨first, t⟩ := first
          obtain ⟨hne, hfirst⟩ := hopen (first, t) (by simp)
          have hentry' := hentry (first, t) (by simp)
          refine joinsTexts_cons_of_next hnode hcontent htext hvalue hentry' hne hid (ih ?_ ?_)
          · intro child hchild
            rcases List.mem_cons.mp hchild with rfl | hchild
            · exact entry_putAtEnd hentry' hne c.value
            · refine (differs_putAtEnd doc first id c.value).entries hl
                (fun child hchild => ?_) child hchild
              have hmem := List.mem_map_of_mem (f := (·.1)) hchild
              simp only [List.mem_cons, List.not_mem_nil, or_false, not_or]
              exact ⟨fun heq => hid (heq ▸ hmem), fun heq => hfirst (heq ▸ hmem)⟩
          · exact List.nodup_cons.mpr ⟨hfirst, hnodup₂⟩

end JoinsTexts

/-- Joins texts below one node: how many text nodes went. -/
def mergeChildren (parent : NodeId) : Edit Nat := do
  let children := (← node parent).children
  alter parent fun node => { node with children := [] }
  let (kept, removed) ← mergeTexts none children
  alter parent fun node => { node with children := kept }
  return removed

/-- Joining goes through the families one after the other. -/
theorem mergeBelow_cons (parent : NodeId) (parents : List NodeId) :
    mergeBelow (parent :: parents) =
      do return (← mergeChildren parent) + (← mergeBelow parents) := by
  rw [mergeBelow, mergeChildren]
  simp only [bind_assoc, pure_bind]

/-- What joining texts leaves of a family. -/
def joined (fam : Family) : List Content :=
  Siblings.join none fam.contents

/-- The children that are left are those of the family, with their texts joined. -/
def LeavesJoined (fam : Family) (left : List (NodeId × Content)) : Prop :=
  left = Siblings.joinNodes none fam.children

/-- The texts of the family are joined. Those that went say nothing and have no parent. -/
structure HasJoined (fam : Family) (doc : Document) : Prop where
  keeps : doc.Keeps { fam with children := Siblings.joinNodes none fam.children }
  entry_gone : ∀ child ∈ fam.children,
    child.1 ∉ (Siblings.joinNodes none fam.children).map (·.1) →
      doc.entry child.1 = some ({ child.2 with value := "" }, none)

/-- A family whose texts were joined keeps what is left of it. -/
theorem HasJoined.keepsLeft {fam : Family} (h : HasJoined fam doc) :
    doc.KeepsLeft false LeavesJoined fam :=
  ⟨_, Siblings.thins_joinNodes fam.children, rfl, h.keeps⟩

/-- Whether the texts of a family were joined depends on its own nodes only. -/
theorem isLocal_hasJoined : IsLocal HasJoined := by
  intro owners members doc doc' fam hdiffers howner hmembers h
  have hsub := (@Siblings.thins_joinNodes false fam.children).sublist_map
  refine ⟨hdiffers.keeps h.keeps howner fun x hx => hmembers x (hsub.subset hx), ?_⟩
  intro child hchild hgone
  rw [hdiffers.entry_eq child.1 (hmembers child.1 (List.mem_map_of_mem hchild)),
    h.entry_gone child hchild hgone]

/-- The texts that go are counted. -/
def CountsGone (fam : Family) (n : Nat) : Prop :=
  n + (Siblings.joinNodes none fam.children).length = fam.children.length

/-- **Joining the texts below a node does to its family what it should**, and counts what is
gone. -/
theorem stepsTo_mergeChildren : StepsTo mergeChildren CountsGone HasJoined := by
  intro fam doc hkeeps hnodup _
  obtain ⟨node, hnode, hchildren⟩ := node_children_of_keeps hkeeps
  have hcleared := differs_altered_children doc fam.id []
  have hjoins : JoinsTexts fam.id none fam.children
      (doc.altered fam.id fun node => { node with children := [] }) :=
    joinsTexts (hcleared.entries hkeeps.entry (by simp)) hnodup
  obtain ⟨kept, removed, doc₂, hrun, hids, hcount, hentry, hgone, hdiffers⟩ := hjoins
  rw [Option.map_none, Option.toList_none, List.nil_append] at hids
  have hlisted := differs_altered_children doc₂ fam.id kept
  obtain ⟨node₂, hnode₂, _⟩ : ∃ node₂, doc₂.nodes[fam.id]? = some node₂ ∧ node₂.children = [] := by
    refine Option.map_eq_some_iff.mp ((hdiffers.childIds_eq fam.id (by simp)).trans ?_)
    rw [childIds, getElem?_altered, if_pos rfl, hnode]
    rfl
  refine ⟨removed, doc₂.altered fam.id fun node => { node with children := kept }, ?_, ?_,
    ⟨⟨?_, ?_⟩, ?_⟩, ?_⟩
  · rw [mergeChildren, apply_bind (apply_node hnode), apply_bind (apply_alter hnode _), hchildren]
    rw [Option.map_none] at hrun
    rw [Family.members, apply_bind hrun, apply_bind (apply_alter hnode₂ _)]
    rfl
  · rw [CountsGone, ← hcount, ← hids, List.length_map]
  · rw [childIds, getElem?_altered, if_pos rfl, hnode₂, Family.members, hids]
    rfl
  · exact hlisted.entries hentry (by simp)
  · intro child hchild hnot
    rw [hlisted.entry_eq child.1 (by simp), hgone child hchild hnot]
  · refine ((hcleared.trans hdiffers).trans hlisted).mono (by simp) ?_
    simp [Family.members]

/-- Joining texts changes nothing among joined siblings. -/
theorem apply_mergeTexts_of_joined {open? : Option NodeId} {l : List (NodeId × Content)}
    (hentry : ∀ child ∈ l, ∃ above, doc.entry child.1 = some (child.2, above))
    (hjoined : Siblings.Joined (l.map (·.2)))
    (hopen : open?.isSome = true → ∀ c ∈ (l.map (·.2)).head?, c.isText = false) :
    (mergeTexts open? (l.map (·.1))).apply doc = (.ok (l.map (·.1), 0), doc) := by
  induction l generalizing open? with
  | nil =>
    rw [List.map_nil, mergeTexts]
    rfl
  | cons child l ih =>
    obtain ⟨id, c⟩ := child
    obtain ⟨above, habove⟩ := hentry (id, c) (by simp)
    obtain ⟨node, hnode, hcontent, _⟩ := exists_node_of_entry habove
    have hl : ∀ child ∈ l, ∃ above, doc.entry child.1 = some (child.2, above) :=
      fun child hchild => hentry child (by simp [hchild])
    rw [List.map_cons, mergeTexts, apply_bind (apply_node hnode), hcontent]
    cases htext : c.isText with
    | false =>
      rw [Bool.not_false, if_pos rfl, apply_bind (ih hl hjoined.tail (by simp))]
      rfl
    | true =>
      have hfilled : c.value.isEmpty = false := hjoined.filled c (by simp) htext
      rw [Bool.not_true, if_neg Bool.false_ne_true, hfilled, if_neg Bool.false_ne_true]
      cases open? with
      | none =>
        have hnext : ∀ d ∈ (l.map (·.2)).head?, d.isText = false :=
          fun d hd => hjoined.isText_head? htext hd
        simp only
        rw [apply_bind (ih hl hjoined.tail fun _ => hnext)]
        rfl
      | some first =>
        rw [hopen rfl c (by simp)] at htext
        cases htext

/-- Families whose texts are joined stay as they are. -/
theorem apply_mergeBelow_of_joined {fams : List Family} (hkeeps : ∀ fam ∈ fams, doc.Keeps fam)
    (hjoined : ∀ fam ∈ fams, Siblings.Joined fam.contents) :
    (mergeBelow (fams.map (·.id))).apply doc = (.ok 0, doc) := by
  induction fams with
  | nil => rfl
  | cons fam fams ih =>
    have hhere := hkeeps fam (by simp)
    obtain ⟨node, hnode, hchildren⟩ := node_children_of_keeps hhere
    have hcleared := differs_altered_children doc fam.id []
    have hmerge : (mergeTexts none fam.members).apply
        (doc.altered fam.id fun node => { node with children := [] }) =
          (.ok (fam.members, 0), doc.altered fam.id fun node => { node with children := [] }) := by
      refine apply_mergeTexts_of_joined (fun child hchild => ?_) (hjoined fam (by simp)) (by simp)
      exact ⟨_, hcleared.entries hhere.entry (by simp) child hchild⟩
    have hnode' : (doc.altered fam.id fun node => { node with children := [] }).nodes[fam.id]? =
        some { node with children := [] } := by
      rw [getElem?_altered, if_pos rfl, hnode]
      rfl
    have hback : (doc.altered fam.id fun node => { node with children := [] }).altered fam.id
        (fun node => { node with children := fam.members }) = doc := by
      rw [altered_altered]
      refine altered_of_eq_self fun other hother => ?_
      rw [hnode] at hother
      cases hother
      rw [← hchildren]
      rfl
    rw [List.map_cons, mergeBelow, apply_bind (apply_node hnode), apply_bind (apply_alter hnode _),
      hchildren, apply_bind hmerge]
    simp only
    rw [apply_bind (apply_alter hnode' _), hback, apply_bind
      (ih (fun fam hfam => hkeeps fam (by simp [hfam])) fun fam hfam => hjoined fam (by simp [hfam]))]
    rfl

end Edit

namespace Document

open Edit

variable {doc doc' : Document} {root : NodeId} {f : NumberedForest}

/-! ## Edits of a document with a tree -/

/-- A document that keeps what is left of the families of a tree has the tree of it. -/
theorem HasTree.exists_of_keepsLeft {above : Option NodeId} (h : doc.HasTree above f)
    {owners members : List NodeId} (hdiffers : Differs owners members doc doc')
    (hroot : ∀ root ∈ f.ids, root ∉ members) {sorts : Bool}
    {Left : Family → List (NodeId × Content) → Prop}
    (hkeeps : ∀ fam ∈ f.families true, doc'.KeepsLeft sorts Left fam) :
    ∃ f', doc'.HasTree above f' ∧ f'.roots = f.roots ∧ f.Becomes sorts Left true f' := by
  have hentry : ∀ root ∈ f.roots, doc'.entry root.1 = some (root.2, above) := by
    intro root hmem
    rw [hdiffers.entry_eq root.1 (hroot root.1 (List.mem_map_of_mem hmem))]
    exact ((shows_iff_keeps true).mp h.shows).1 root hmem
  obtain ⟨f', hroots, hshows, hbecomes⟩ :=
    exists_shows_of_keepsLeft (Thins.refl f.roots) hentry hkeeps
  refine ⟨f', ⟨?_, hshows, h.nodup.sublist hbecomes.allIds_sublist⟩, hroots, hbecomes⟩
  rw [hdiffers.root_eq, h.root_eq, Forest.ids, Forest.ids, hroots]

/-- **Joining texts joins them in each family.** -/
theorem HasTree.exists_apply_normalize {above : Option NodeId} (h : doc.HasTree above f) :
    ∃ counts doc' f', normalize.apply doc = (.ok (counts.foldr (· + ·) 0), doc') ∧
      List.Forall₂ CountsGone (f.families true) counts ∧
      (∀ fam ∈ f.families true, HasJoined fam doc') ∧
      Differs f.allIds f.allIds doc doc' ∧ doc'.HasTree above f' ∧ f'.roots = f.roots ∧
      f.Becomes false LeavesJoined true f' := by
  obtain ⟨counts, doc', hrun, hcounts, hjoined, hdiffers⟩ := exists_apply_each
    stepsTo_mergeChildren isLocal_hasJoined rfl mergeBelow_cons h.nodup_ids h.nodup_members
    (fun _ hfam => h.keeps hfam) fun fam hfam =>
      let ⟨above, habove⟩ := h.shows.entry hfam
      ⟨fam.content, above, habove, .refl _⟩
  obtain ⟨f', htree, hroots, hbecomes⟩ := h.exists_of_keepsLeft hdiffers
    (fun _ hroot => h.notMem_members hroot) fun fam hfam => (hjoined fam hfam).keepsLeft
  refine ⟨counts, doc', f', ?_, hcounts, hjoined, hdiffers.mono ?_ ?_, htree, hroots, hbecomes⟩
  · rw [Edit.normalize, apply_bind (apply_read h.descendants)]
    exact hrun
  · rw [Forest.map_id_families]
    exact List.Subset.refl _
  · exact fun x hx => (Forest.perm_members_families true f).subset (List.mem_append_right _ hx)

/-- **Where texts are joined, joining them changes nothing.** -/
theorem HasTree.apply_normalize_of_joined {above : Option NodeId} (h : doc.HasTree above f)
    (hjoined : ∀ fam ∈ f.families true, Siblings.Joined fam.contents) :
    normalize.apply doc = (.ok 0, doc) := by
  rw [Edit.normalize, apply_bind (apply_read h.descendants)]
  exact apply_mergeBelow_of_joined (fun _ hfam => h.keeps hfam) hjoined

/-- The tree of the new document is what passes leave of that of the old one. -/
def Turns (sorts : Bool) (Left : Family → List (NodeId × Content) → Prop) (root : NodeId)
    (f f' : NumberedForest) : Prop :=
  Forest.Becomes sorts Left true (.node (root, .document) f .nil)
    (.node (root, .document) f' .nil)

/-- The roots of what is left are what is left of the root's family. -/
theorem Turns.below {sorts : Bool} {Left : Family → List (NodeId × Content) → Prop}
    {f' : NumberedForest} (h : Turns sorts Left root f f') :
    Left ⟨root, .document, true, f.roots⟩ f'.roots ∧ f.Becomes sorts Left true f' := by
  cases h with
  | drop hgoes _ => cases hgoes
  | keep _ hhere hbelow _ => exact ⟨hhere, hbelow⟩

/-- A document whose root is kept still stands. -/
theorem Stands.exists_of_becomes {whole : NumberedForest} {sorts : Bool}
    {Left : Family → List (NodeId × Content) → Prop} (htree : doc'.HasTree none whole)
    (hroots : whole.roots = [(root, .document)])
    (h : Forest.Becomes sorts Left true (.node (root, .document) f .nil) whole) :
    ∃ f', doc'.Stands root f' ∧ Turns sorts Left root f f' := by
  cases whole with
  | nil => cases hroots
  | node label f' beside =>
    cases beside with
    | node => cases hroots
    | nil =>
      rw [Forest.roots, List.cons.injEq] at hroots
      obtain ⟨rfl, _⟩ := hroots
      exact ⟨f', .of_hasTree htree, h⟩

/-- A document in which something is left of each family stands, with what is left. -/
theorem Stands.exists_of_keepsLeft (h : doc.Stands root f) {owners members : List NodeId}
    (hdiffers : Differs owners members doc doc') (hroot : root ∉ members) {sorts : Bool}
    {Left : Family → List (NodeId × Content) → Prop}
    (hkeeps : ∀ fam ∈ familiesOf root f, doc'.KeepsLeft sorts Left fam) :
    ∃ f', doc'.Stands root f' ∧ Turns sorts Left root f f' := by
  obtain ⟨whole, htree, hroots, hbecomes⟩ := h.hasTree.exists_of_keepsLeft hdiffers
    (fun id hid => by cases List.mem_singleton.mp hid; exact hroot) hkeeps
  exact exists_of_becomes htree hroots hbecomes

/-- **Joining all texts succeeds, and joins those of each family.** -/
theorem Stands.exists_apply_normalize (h : doc.Stands root f) :
    ∃ n doc' f', normalize.apply doc = (.ok n, doc') ∧ doc'.Stands root f' ∧
      Turns false (Family.Leaves joined) root f f' := by
  obtain ⟨_, doc', whole, hrun, _, _, _, htree, hroots, hbecomes⟩ :=
    h.hasTree.exists_apply_normalize
  have hleaves : Forest.Becomes false (Family.Leaves joined) true
      (.node (root, .document) f .nil) whole := by
    refine hbecomes.mono fun fam _ left hleft => ?_
    rw [Family.Leaves, hleft, Siblings.map_snd_joinNodes]
    rfl
  obtain ⟨f', hstands, hturns⟩ := exists_of_becomes htree hroots hleaves
  exact ⟨_, doc', f', hrun, hstands, hturns⟩

/-- **A document whose texts are joined stays as it is**, and nothing is counted. -/
theorem Stands.apply_normalize_of_joined (h : doc.Stands root f)
    (hjoined : ∀ fam ∈ familiesOf root f, Siblings.Joined fam.contents) :
    normalize.apply doc = (.ok 0, doc) :=
  h.hasTree.apply_normalize_of_joined hjoined

end Document

end HtmlMinify
