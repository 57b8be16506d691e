import HtmlMinify.Proofs.Stability

/-!
# The skeleton of a page

Without its texts and comments a tree is the same before and after a run, node by node: passes pare
down the attributes of elements, and all else about a node stays. The order of attributes changes
only if they are sorted.

## Main statements

* `Forest.Becomes.matches_skeleton`: what passes leave of a forest has the skeleton of it.
* `Settings.run_keeps_skeleton`: a run keeps the skeleton of a page.
-/

namespace HtmlMinify

namespace Forest

variable {α β γ : Type}

/-- Forests of one shape, with labels that stand in a relation. -/
inductive Matches (R : α → β → Prop) : Forest α → Forest β → Prop where
  | nil : Matches R nil nil
  | node {a : α} {b : β} {children siblings : Forest α} {children' siblings' : Forest β} : R a b →
    Matches R children children' → Matches R siblings siblings' →
    Matches R (node a children siblings) (node b children' siblings')

namespace Matches

theorem refl {R : α → α → Prop} (hrefl : ∀ a, R a a) (f : Forest α) : Matches R f f := by
  induction f with
  | nil => exact .nil
  | node a children siblings ihc ihs => exact .node (hrefl a) ihc ihs

theorem trans {R : α → α → Prop} (htrans : ∀ {a b c}, R a b → R b c → R a c)
    {f f' f'' : Forest α} (h : Matches R f f') (h' : Matches R f' f'') : Matches R f f'' := by
  induction h generalizing f'' with
  | nil => exact h'
  | node hlabel _ _ ihc ihs =>
    cases h' with
    | node hlabel' hchildren' hsiblings' =>
      exact .node (htrans hlabel hlabel') (ihc hchildren') (ihs hsiblings')

/-- What holds of all labels of the second forest can be added to the relation. -/
theorem and_right {R : α → β → Prop} {P : β → Prop} {f : Forest α} {f' : Forest β}
    (h : Matches R f f') (hP : ∀ b ∈ f'.toList, P b) : Matches (fun a b => R a b ∧ P b) f f' := by
  induction h with
  | nil => exact .nil
  | node hlabel _ _ ihc ihs =>
    rw [toList] at hP
    exact .node ⟨hlabel, hP _ List.mem_cons_self⟩
      (ihc fun b hb => hP b (mem_of_mem_below hb))
      (ihs fun b hb => hP b (mem_of_mem_beside hb))

end Matches

/-- The forest without its texts and comments. -/
def skeleton : Forest Content → Forest Content
  | nil => nil
  | node c children siblings =>
    if c.mayGo then siblings.skeleton else node c children.skeleton siblings.skeleton

/-- What is in the skeleton of a forest is in the forest. -/
theorem mem_of_mem_skeleton {f : Forest Content} {c : Content} (h : c ∈ f.skeleton.toList) :
    c ∈ f.toList := by
  induction f with
  | nil => cases h
  | node d children siblings ihc ihs =>
    rw [toList, List.mem_cons, List.mem_append]
    rw [skeleton] at h
    split at h
    · exact .inr (.inr (ihs h))
    · rw [toList, List.mem_cons, List.mem_append] at h
      exact h.imp_right (Or.imp ihc ihs)

/-- Each node of a forest has its family. -/
theorem exists_family_of_mem_contents {f : NumberedForest} {c : Content}
    (h : c ∈ f.contents.toList) (free : Bool) : ∃ fam ∈ f.families free, fam.content = c := by
  induction f generalizing free with
  | nil => cases h
  | node label children siblings ihc ihs =>
    obtain ⟨id, d⟩ := label
    rw [contents_node, toList, List.mem_cons, List.mem_append] at h
    rw [families]
    rcases h with rfl | h | h
    · exact ⟨_, List.mem_cons_self, rfl⟩
    · obtain ⟨fam, hfam, hcontent⟩ := ihc h (free && !d.preservesText)
      exact ⟨fam, mem_of_mem_below hfam, hcontent⟩
    · obtain ⟨fam, hfam, hcontent⟩ := ihs h free
      exact ⟨fam, mem_of_mem_beside hfam, hcontent⟩

end Forest

/-- The node but for its attributes, of which some are left. -/
structure Content.Trims (sorts : Bool) (c c' : Content) : Prop where
  eq_of_attributes : { c' with attributes := c.attributes } = c
  pared : c.attributes.Pared sorts c'.attributes

namespace Content.Trims

variable {sorts : Bool} {c c' c'' : Content}

theorem refl (c : Content) : Trims sorts c c :=
  ⟨rfl, .refl _⟩

theorem trans (h : Trims sorts c c') (h' : Trims sorts c' c'') : Trims sorts c c'' where
  eq_of_attributes := by
    have heq := h.eq_of_attributes
    rw [← h'.eq_of_attributes] at heq
    exact heq
  pared := h.pared.trans h'.pared

/-- A node other than a text is edited in its attributes only. -/
theorem of_edited (h : c.Edited sorts c') (htext : c.isText = false) : Trims sorts c c' where
  eq_of_attributes := by
    obtain ⟨⟨hkind, hname⟩, hself, hvalue, -⟩ := h
    rw [hkind, hname, hself, hvalue htext]
  pared := h.attributes

end Content.Trims

/-- **What passes leave of a forest has its skeleton.** -/
theorem Forest.Becomes.matches_skeleton {sorts sorts' free : Bool}
    {Left : Family → List (NodeId × Content) → Prop} {f f' : NumberedForest}
    (h : f.Becomes sorts Left free f') (hsorts : sorts = true → sorts' = true) :
    f.contents.skeleton.Matches (Content.Trims sorts') f'.contents.skeleton := by
  induction h with
  | nil => exact .nil
  | drop hgoes _ ih =>
    rw [contents_node, skeleton, if_pos hgoes]
    exact ih
  | @keep _ id c c' _ _ _ _ hedited _ _ _ ihc ihs =>
    rw [contents_node, contents_node, skeleton, skeleton, hedited.mayGo_eq]
    cases hgoes : c.mayGo with
    | true => exact ihs
    | false =>
      have htext : c.isText = false := (Bool.or_eq_false_iff.mp hgoes).1
      exact .node (.of_edited (hedited.mono hsorts) htext) ihc ihs

namespace Document

open Pass

variable {doc : Document} {root : NodeId} {f f' : NumberedForest}

/-- The tree of a document with its root. -/
def treeOf (f : NumberedForest) : Forest Content :=
  .node .document f.contents .nil

/-- The tree of a document that stands is that of its forest. -/
theorem Stands.tree (h : doc.Stands root f) : doc.tree = .ok (treeOf f) := by
  have hlevels : Forest.levels (.node (root, Content.document) f .nil) ≤ doc.maxLevels := by
    have := h.levels_le
    rw [Forest.levels, Forest.levels, maxLevels]
    omega
  have htrees := trees_of_shows h.shows hlevels
  rw [Document.tree, h.root_eq]
  exact htrees

/-- **A step keeps the skeleton of a page**, and trims the nodes in it. -/
theorem Step.matches_skeleton {w : Work} (h : Step w root f f') {sorts : Bool}
    (hsorts : w.sorts = true → sorts = true) :
    (treeOf f).skeleton.Matches (Content.Trims sorts) (treeOf f').skeleton :=
  h.turns.matches_skeleton hsorts

/-- **A run keeps the skeleton of a tree.** -/
theorem Leads.matches_skeleton {ws : List Work} (h : Leads root ws f f') {sorts : Bool}
    (hsorts : ∀ w ∈ ws, w.sorts = true → sorts = true) :
    (treeOf f).skeleton.Matches (Content.Trims sorts) (treeOf f').skeleton :=
  h.preserves (R := fun f f' => (treeOf f).skeleton.Matches (Content.Trims sorts)
    (treeOf f').skeleton) (fun _ => .refl .refl _) (fun h h' => h.trans (fun h h' => h.trans h') h')
    fun w hw _ _ hstep => hstep.matches_skeleton (hsorts w hw)

/-- The elements of a sound tree have distinct keys. -/
theorem Sound.distinct_of_mem_skeleton (h : Sound root f) {c : Content}
    (hc : c ∈ (treeOf f).skeleton.toList) (helement : c.isElement = true) :
    c.attributes.Distinct := by
  obtain ⟨fam, hfam, rfl⟩ := Forest.exists_family_of_mem_contents
    (f := .node (root, .document) f .nil) (Forest.mem_of_mem_skeleton hc) true
  exact (h fam hfam).distinct helement

end Document

/-- Only one pass sorts attributes. -/
theorem Pass.eq_of_sorts {read? : String → Option Url} {ctx : Context} {pass : Pass}
    (h : (pass.work read? ctx).sorts = true) : pass = sortAttributes := by
  cases pass with
  | sortAttributes => rfl
  | relativeLinks =>
    cases hdomains : ctx.localDomains.isEmpty <;>
      simp only [work, rule?, hdomains] at h <;> cases h
  | _ => cases h

namespace Settings

/-- **A run keeps the skeleton of a page.** Without texts and comments the tree has the same nodes in
the same places. They are the same but for the attributes of elements: of these some may be gone, and
no key occurs twice. Values change only where they are class names or addresses, and the order only
if attributes are sorted. -/
theorem run_keeps_skeleton (s : Settings) (read? : String → Option Url) {maxDepth : Nat}
    {page : String} {doc : Document} (h : Document.parse maxDepth page = .ok doc) :
    ∃ doc' tree tree', (Run.settings read? s).apply doc = (.ok s.writeOptions, doc') ∧
      doc.tree = .ok tree ∧ doc'.tree = .ok tree' ∧
      tree.skeleton.Matches (fun c c' =>
        c.Trims (s.active.contains .sortAttributes) c' ∧
          (c'.isElement = true → c'.attributes.Distinct)) tree'.skeleton := by
  obtain ⟨f, -, hstands, htidy⟩ := Document.exists_stands_of_parse h
  obtain ⟨counts, doc', f', hrun, hstands', htidy', hleads⟩ :=
    hstands.exists_succeeds htidy read? s.context s.active
  refine ⟨doc', _, _, hrun.apply_passes {}, hstands.tree, hstands'.tree, ?_⟩
  refine (hleads.matches_skeleton fun w hw hsorts => ?_).and_right fun c hc =>
    htidy'.sound.distinct_of_mem_skeleton hc
  obtain ⟨pass, hpass, rfl⟩ := List.mem_map.mp hw
  rw [Pass.eq_of_sorts hsorts] at hpass
  exact List.contains_iff_mem.mpr hpass

/-- All passes together keep the skeleton of the page of the other samples. -/
theorem run_keeps_skeleton_messyPage :
    Document.parse 3 messyPage = .ok (.ofForest messyForest) ∧
      ∃ doc' tree tree', (Run.settings Url.parse? off.withAll).apply (.ofForest messyForest) =
          (.ok off.withAll.writeOptions, doc') ∧
        (Document.ofForest messyForest).tree = .ok tree ∧ doc'.tree = .ok tree' ∧
        tree.skeleton.Matches (fun c c' =>
          c.Trims (off.withAll.active.contains .sortAttributes) c' ∧
            (c'.isElement = true → c'.attributes.Distinct)) tree'.skeleton :=
  ⟨parse_messyPage, run_keeps_skeleton off.withAll Url.parse? parse_messyPage⟩

end Settings

end HtmlMinify
