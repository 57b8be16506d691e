import HtmlMinify.Proofs.Edits
import Mathlib.Data.Finset.Card

/-!
# Nodes that are taken out

Taking nodes out goes through a list of ids twice: once to remove parent links, and once to prune the
child lists of the parents that were found. The ids may be given in any order and more than once, and
some of them may be below others or have no parent. In a document whose parent links and child lists
agree this comes to the same as unlinking the listed nodes all at once, and the entries that go from
child lists are the listed nodes that had a parent.

## Main statement

* `Document.LinksAgree.detach_unlinks`: exactly the listed nodes are unlinked.
-/

namespace HtmlMinify.Document

open Edit

variable {doc : Document} {ids gone owners : List NodeId}

/-! ## Links in both directions -/

/-- Parent links and child lists agree: a node stands in a child list exactly if the owner of the list
is its parent, and then once. -/
def LinksAgree (doc : Document) : Prop :=
  ∀ owner id, (doc.childrenOf owner).count id = if doc.parentOf id = some owner then 1 else 0

/-- A node with children is in the table. -/
theorem lt_size_of_mem_childrenOf {owner id : NodeId} (h : id ∈ doc.childrenOf owner) :
    owner < doc.size := by
  by_contra hle
  have hnone : doc.nodes[owner]? = none := Array.getElem?_eq_none (Nat.le_of_not_lt hle)
  rw [childrenOf, childIds, hnone] at h
  cases h

/-- A node with a parent is in the table. -/
theorem lt_size_of_parentOf {above id : NodeId} (h : doc.parentOf id = some above) :
    id < doc.size := by
  by_contra hle
  have hnone : doc.nodes[id]? = none := Array.getElem?_eq_none (Nat.le_of_not_lt hle)
  rw [parentOf, hnone] at h
  cases h

namespace LinksAgree

/-- Where links agree, the children of a node are those that have it as their parent. -/
theorem mem_iff (h : doc.LinksAgree) {owner id : NodeId} :
    id ∈ doc.childrenOf owner ↔ doc.parentOf id = some owner := by
  rw [← List.count_pos_iff, h]
  split <;> simp_all

/-- Where links agree, no node lists a child twice. -/
theorem nodup (h : doc.LinksAgree) (owner : NodeId) : (doc.childrenOf owner).Nodup := by
  rw [List.nodup_iff_count_le_one]
  intro id
  rw [h]
  split <;> simp

end LinksAgree

/-- Links agree if no child list repeats an id, each child links back, and each node with a parent is
its child. It is enough to look at the nodes that there are. -/
theorem linksAgree_iff : doc.LinksAgree ↔
    (∀ owner < doc.size, (doc.childrenOf owner).Nodup ∧
      ∀ id ∈ doc.childrenOf owner, doc.parentOf id = some owner) ∧
    ∀ id < doc.size, ∀ owner ∈ doc.parentOf id, id ∈ doc.childrenOf owner := by
  constructor
  · intro h
    exact ⟨fun owner _ => ⟨h.nodup owner, fun id hid => h.mem_iff.mp hid⟩,
      fun id _ owner howner => h.mem_iff.mpr howner⟩
  · rintro ⟨hlists, hparents⟩ owner id
    split
    · next hparent =>
      have hmem := hparents id (lt_size_of_parentOf hparent) owner hparent
      exact List.count_eq_one_of_mem (hlists owner (lt_size_of_mem_childrenOf hmem)).1 hmem
    · next hparent =>
      rw [List.count_eq_zero]
      exact fun hmem => hparent ((hlists owner (lt_size_of_mem_childrenOf hmem)).2 id hmem)

instance (doc : Document) : Decidable doc.LinksAgree :=
  decidable_of_iff _ linksAgree_iff.symm

/-! ## Unlinking nodes all at once -/

/-- The document with the listed nodes unlinked: they have no parent and are in no child list. -/
def unlinked (doc : Document) (ids : List NodeId) : Document :=
  { doc with nodes := doc.nodes.mapIdx fun id node =>
      { node with
        parent := if id ∈ ids then none else node.parent
        children := node.children.filter (· ∉ ids) } }

/-- Unlinked nodes lose their parent, and their parents lose them. -/
theorem getElem?_unlinked (doc : Document) (ids : List NodeId) (id : NodeId) :
    (doc.unlinked ids).nodes[id]? = doc.nodes[id]?.map fun node =>
      { node with
        parent := if id ∈ ids then none else node.parent
        children := node.children.filter (· ∉ ids) } :=
  Array.getElem?_mapIdx

/-- Unlinked nodes have no parent, and the others have theirs. -/
theorem parentOf_unlinked (doc : Document) (ids : List NodeId) (id : NodeId) :
    (doc.unlinked ids).parentOf id = if id ∈ ids then none else doc.parentOf id := by
  rw [parentOf, getElem?_unlinked, parentOf]
  cases doc.nodes[id]? with
  | none => simp
  | some node => rfl

/-- A node keeps the children that are not unlinked. -/
theorem childrenOf_unlinked (doc : Document) (ids : List NodeId) (owner : NodeId) :
    (doc.unlinked ids).childrenOf owner = (doc.childrenOf owner).filter (· ∉ ids) := by
  rw [childrenOf, childIds, getElem?_unlinked, childrenOf, childIds]
  cases doc.nodes[owner]? <;> rfl

namespace LinksAgree

/-- Links still agree when nodes are unlinked in both directions. -/
theorem unlinked (h : doc.LinksAgree) (ids : List NodeId) : (doc.unlinked ids).LinksAgree := by
  intro owner id
  rw [childrenOf_unlinked, parentOf_unlinked]
  by_cases hid : id ∈ ids
  · rw [if_pos hid, if_neg (by simp), List.count_eq_zero]
    simp [hid]
  · rw [if_neg hid, List.count_filter (by simpa using hid), h]

/-- Pruning the child lists of the parents that listed nodes had takes all of these out of all child
lists: a listed node without a parent is in none, and the list of another owner holds no listed
node. -/
theorem pruned_orphaned (h : doc.LinksAgree)
    (hgone : ∀ id, id ∈ gone ↔ id ∈ ids ∧ (doc.parentOf id).isSome)
    (howners : ∀ owner, owner ∈ owners ↔ ∃ id ∈ ids, doc.parentOf id = some owner) :
    (doc.orphaned ids).pruned gone owners = doc.unlinked ids := by
  refine ext_nodes rfl fun owner => ?_
  rw [getElem?_pruned, getElem?_orphaned, getElem?_unlinked]
  cases hnode : doc.nodes[owner]? with
  | none => rfl
  | some node =>
    have hchild : ∀ id ∈ node.children, doc.parentOf id = some owner := by
      intro id hid
      refine h.mem_iff.mp ?_
      rw [childrenOf, childIds, hnode]
      exact hid
    have hchildren : (if owner ∈ owners then node.children.filter (!gone.contains ·)
        else node.children) = node.children.filter (· ∉ ids) := by
      split
      · refine List.filter_congr fun id hid => ?_
        simp [hgone, hchild id hid]
      · next hout =>
        refine (List.filter_eq_self.mpr fun id hid => ?_).symm
        rw [decide_eq_true_iff]
        exact fun hmem => hout ((howners owner).mpr ⟨id, hmem, hchild id hid⟩)
    rw [Option.map_some, Option.map_some, Option.map_some, ← hchildren]
    by_cases howner : owner ∈ owners <;> by_cases hid : owner ∈ ids <;>
      simp only [howner, hid, if_true, if_false]

/-- The entries that go, list by list, are the listed nodes that had a parent. -/
theorem perm_gone (h : doc.LinksAgree) (hnodup : gone.Nodup) (howners_nodup : owners.Nodup)
    (hgone : ∀ id, id ∈ gone ↔ id ∈ ids ∧ (doc.parentOf id).isSome)
    (howners : ∀ owner, owner ∈ owners ↔ ∃ id ∈ ids, doc.parentOf id = some owner) :
    (owners.flatMap fun owner => (doc.childrenOf owner).filter gone.contains).Perm gone := by
  have hmem : ∀ id, id ∈ owners.flatMap (fun owner =>
      (doc.childrenOf owner).filter gone.contains) ↔ id ∈ gone := by
    intro id
    simp only [List.mem_flatMap, List.mem_filter, List.contains_iff_mem, h.mem_iff]
    constructor
    · rintro ⟨owner, -, -, hid⟩
      exact hid
    · intro hid
      obtain ⟨hlisted, hparent⟩ := (hgone id).mp hid
      obtain ⟨owner, howner⟩ := Option.isSome_iff_exists.mp hparent
      exact ⟨owner, (howners owner).mpr ⟨id, hlisted, howner⟩, howner, hid⟩
  refine (List.perm_ext_iff_of_nodup ?_ hnodup).mpr hmem
  rw [List.nodup_flatMap]
  refine ⟨fun owner _ => (h.nodup owner).filter _, howners_nodup.imp fun {owner other} hne => ?_⟩
  -- a node has one parent, so it is in one child list only
  intro id hid hid'
  have hfirst := h.mem_iff.mp (List.mem_filter.mp hid).1
  have hsecond := h.mem_iff.mp (List.mem_filter.mp hid').1
  rw [hfirst] at hsecond
  exact hne (Option.some.inj hsecond)

/-- **Taking nodes out unlinks exactly the listed nodes.** Where links agree and all ids are there, it
succeeds. Listed nodes end up without a parent and in no child list, all others keep their parent, and
a child list loses the listed ids and nothing else, in the same order; so links agree again. The
number is that of the listed nodes that had a parent, each counted once. -/
theorem detach_unlinks (h : doc.LinksAgree) (hids : ∀ id ∈ ids, id < doc.size) :
    (detach ids).apply doc =
        (.ok (ids.toFinset.filter fun id => (doc.parentOf id).isSome).card, doc.unlinked ids) ∧
      (∀ id ∈ ids, (doc.unlinked ids).parentOf id = none ∧
        ∀ owner, id ∉ (doc.unlinked ids).childrenOf owner) ∧
      (∀ id ∉ ids, (doc.unlinked ids).parentOf id = doc.parentOf id) ∧
      (∀ owner, (doc.unlinked ids).childrenOf owner = (doc.childrenOf owner).filter (· ∉ ids)) ∧
      (doc.unlinked ids).LinksAgree := by
  obtain ⟨gone, owners, hrun, hnodup, howners_nodup, hgone, howners⟩ :=
    exists_apply_detach hids fun id _ above habove =>
      lt_size_of_mem_childrenOf (h.mem_iff.mpr habove)
  have hcount : gone.length = (ids.toFinset.filter fun id => (doc.parentOf id).isSome).card := by
    rw [← List.toFinset_card_of_nodup hnodup]
    congr 1
    ext id
    rw [List.mem_toFinset, hgone, Finset.mem_filter, List.mem_toFinset]
  refine ⟨?_, fun id hid => ⟨?_, fun owner hmem => ?_⟩, fun id hid => ?_, ?_, h.unlinked ids⟩
  · rw [hrun, h.pruned_orphaned hgone howners, ← hcount,
      (h.perm_gone hnodup howners_nodup hgone howners).length_eq]
  · rw [parentOf_unlinked, if_pos hid]
  · rw [childrenOf_unlinked, List.mem_filter] at hmem
    exact of_decide_eq_true hmem.2 hid
  · rw [parentOf_unlinked, if_neg hid]
  · exact childrenOf_unlinked doc ids

end LinksAgree

/-- A paragraph with a text between two texts, and a comment that has no parent. -/
def sampleLinks : Document where
  root := some 0
  nodes := #[
    { toContent := .document, children := [1, 2, 4] },
    { toContent := .leaf .text "a", parent := some 0 },
    { toContent := .element "p" {} false, parent := some 0, children := [3] },
    { toContent := .leaf .text "b", parent := some 2 },
    { toContent := .leaf .text "c", parent := some 0 },
    { toContent := .leaf .comment "d" }]

/-- Ids can be given twice, below one another, without a parent, and the root can be among them. -/
theorem LinksAgree.detach_unlinks_sample :
    sampleLinks.LinksAgree ∧ (∀ id ∈ [3, 2, 0, 3, 5, 1], id < sampleLinks.size) ∧
      ∃ doc', (detach [3, 2, 0, 3, 5, 1]).apply sampleLinks = (.ok 3, doc') ∧
        doc'.parentOf 3 = none ∧ doc'.parentOf 4 = some 0 ∧ doc'.childrenOf 0 = [4] ∧
        doc'.childrenOf 2 = [] ∧ doc'.LinksAgree := by
  have hagree : sampleLinks.LinksAgree := by decide +kernel
  have hids : ∀ id ∈ [3, 2, 0, 3, 5, 1], id < sampleLinks.size := by decide
  obtain ⟨hrun, hlisted, hothers, hchildren, hagree'⟩ := hagree.detach_unlinks hids
  refine ⟨hagree, hids, _, hrun.trans ?_, (hlisted 3 (by simp)).1, hothers 4 (by simp), ?_, ?_,
    hagree'⟩
  · rfl
  · rw [hchildren]
    rfl
  · rw [hchildren]
    rfl

end HtmlMinify.Document
