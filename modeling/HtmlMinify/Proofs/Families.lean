import HtmlMinify.Proofs.Arena
import Mathlib.Data.List.Nodup

/-!
# The families of a document

A family is a node with its children. What passes do to a page they do family by family: they drop
some of the children and change the content of others. `Document.Keeps` says that a table holds a
family: the node lists the children, and each child has its content and links back. A document shows
a forest exactly if it keeps all families of it, so a change of the table can be followed through the
two columns that families touch, `Document.childIds` and `Document.entry`.

## Main statements

* `Forest.Becomes`: what passes leave of a forest, node by node and family by family.
* `Document.shows_iff_keeps`: a document shows a forest if it keeps its families.
* `Document.exists_shows_of_keepsLeft`: a document that keeps what is left of families shows the
  forest of it.
* `Document.Stands`: a document whose tree has distinct ids, with what walks through it give.
-/

namespace HtmlMinify

/-- The same kind and the same name; all else may differ. -/
structure Content.Alike (c c' : Content) : Prop where
  kind : c'.kind = c.kind
  name : c'.name = c.name

namespace Content.Alike

variable {c c' c'' : Content}

theorem refl (c : Content) : c.Alike c := ⟨rfl, rfl⟩

theorem trans (h : c.Alike c') (h' : c'.Alike c'') : c.Alike c'' :=
  ⟨h'.kind.trans h.kind, h'.name.trans h.name⟩

/-- Nodes alike are both elements, or neither is. -/
theorem isElement_eq (h : c.Alike c') : c'.isElement = c.isElement := by
  rw [isElement, h.kind, isElement]

/-- Nodes alike are both texts, or neither is. -/
theorem isText_eq (h : c.Alike c') : c'.isText = c.isText := by
  rw [isText, h.kind, isText]

/-- Nodes alike have the same tag, if any. -/
theorem isTag_eq (h : c.Alike c') (name : String) : c'.isTag name = c.isTag name := by
  rw [isTag, h.kind, h.name, isTag]

/-- Nodes alike are both blocks, or neither is. -/
theorem isBlock_eq (h : c.Alike c') : c'.isBlock = c.isBlock := by
  rw [isBlock, h.isElement_eq, h.name, isBlock]

/-- Nodes alike both preserve the text in them, or neither does. -/
theorem preservesText_eq (h : c.Alike c') : c'.preservesText = c.preservesText := by
  rw [preservesText, h.isElement_eq, h.name, preservesText]

end Content.Alike

/-! ## What passes do to a node -/

/-- The names of the attributes, in order. -/
def Attributes.names (as : Attributes) : List String :=
  as.toList.map (·.name)

/-- Attributes of which some are gone. Those left have their names, and their values but for class
names and addresses, and they stand in the same order unless it may be sorted. -/
structure Attributes.Pared (sorts : Bool) (as as' : Attributes) : Prop where
  names_subperm : as'.names.Subperm as.names
  names_sublist : sorts = false → as'.names.Sublist as.names
  comes : ∀ a' ∈ as'.toList, ∃ a ∈ as.toList, a'.name = a.name ∧
    (a'.value = a.value ∨ a.is "class" = true ∨ Tag.isUrlAttribute a.name = true)

namespace Attributes.Pared

variable {sorts sorts' : Bool} {as as' as'' : Attributes}

/-- Attributes of which some are dropped are pared. -/
theorem of_sublist (h : as'.toList.Sublist as.toList) : Pared sorts as as' :=
  ⟨(h.map _).subperm, fun _ => h.map _, fun a ha => ⟨a, h.subset ha, rfl, .inl rfl⟩⟩

theorem refl (as : Attributes) : Pared sorts as as :=
  of_sublist (List.Sublist.refl _)

/-- Attributes in another order are pared, if sorting is allowed. -/
theorem of_perm (h : as'.toList.Perm as.toList) : Pared true as as' :=
  ⟨(h.map _).subperm, by simp, fun a ha => ⟨a, h.subset ha, rfl, .inl rfl⟩⟩

theorem trans (h : Pared sorts as as') (h' : Pared sorts as' as'') : Pared sorts as as'' where
  names_subperm := h'.names_subperm.trans h.names_subperm
  names_sublist hsorts := (h'.names_sublist hsorts).trans (h.names_sublist hsorts)
  comes a'' ha'' := by
    obtain ⟨a', ha', hname', hvalue'⟩ := h'.comes a'' ha''
    obtain ⟨a, ha, hname, hvalue⟩ := h.comes a' ha'
    have hclass : a'.is "class" = a.is "class" := by rw [Attribute.is, hname, Attribute.is]
    rw [hclass, hname] at hvalue'
    refine ⟨a, ha, hname'.trans hname, ?_⟩
    rcases hvalue' with hsame | hrevised
    · rw [hsame]
      exact hvalue
    · exact .inr hrevised

/-- What is pared without sorting is pared with it. -/
theorem mono (h : Pared sorts as as') (hsorts : sorts = true → sorts' = true) :
    Pared sorts' as as' :=
  { h with names_sublist := fun hfalse => h.names_sublist (by cases sorts <;> simp_all) }

end Attributes.Pared

/-- A text or a comment; no other node is ever taken out of a page. -/
def Content.mayGo (c : Content) : Bool :=
  c.isText || c.kind == .comment

/-- Texts may go. -/
theorem Content.mayGo_of_isText {c : Content} (h : c.isText = true) : c.mayGo = true := by
  rw [mayGo, h, Bool.true_or]

/-- A node that takes no children: no document, and no element but one that closes itself or is
void. -/
def Content.isLeaf (c : Content) : Bool :=
  c.kind != .document && (!c.isElement || c.isLeafElement)

/-- What may go takes no children. -/
theorem Content.isLeaf_of_mayGo {c : Content} (h : c.mayGo = true) : c.isLeaf = true := by
  rw [mayGo, isText, Bool.or_eq_true, decide_eq_true_eq, beq_iff_eq] at h
  rw [isLeaf, isElement]
  rcases h with hkind | hkind <;> rw [hkind] <;> rfl

/-- Void elements take no children. -/
theorem Content.isLeaf_of_isVoid {c : Content} (h : c.isVoid = true) : c.isLeaf = true := by
  rw [isVoid, isElement, Bool.and_eq_true, decide_eq_true_eq] at h
  rw [isLeaf, isLeafElement, h.1, h.2, Bool.or_true, Bool.or_true]
  rfl

/-- A node that takes children is a document or an open element. -/
theorem Content.kind_of_not_isLeaf {c : Content} (h : c.isLeaf = false)
    (hkind : c.kind ≠ .document) : c.kind = .element ∧ c.isLeafElement = false := by
  rw [isLeaf, bne_iff_ne.mpr hkind, Bool.true_and, Bool.or_eq_false_iff, Bool.not_eq_false',
    isElement, decide_eq_true_eq] at h
  exact h

/-- Nodes alike may both go, or neither may. -/
theorem Content.Alike.mayGo_eq {c c' : Content} (h : c.Alike c') : c'.mayGo = c.mayGo := by
  rw [mayGo, h.isText_eq, h.kind, mayGo]

/-- What passes may make of a node: only attributes and the value of a text may differ. -/
structure Content.Edited (sorts : Bool) (c c' : Content) : Prop extends c.Alike c' where
  selfClosing : c'.selfClosing = c.selfClosing
  value : c.isText = false → c'.value = c.value
  attributes : c.attributes.Pared sorts c'.attributes

namespace Content.Edited

variable {sorts sorts' : Bool} {c c' c'' : Content}

theorem refl (c : Content) : c.Edited sorts c :=
  ⟨.refl c, rfl, fun _ => rfl, .refl _⟩

theorem trans (h : c.Edited sorts c') (h' : c'.Edited sorts c'') : c.Edited sorts c'' where
  toAlike := h.toAlike.trans h'.toAlike
  selfClosing := h'.selfClosing.trans h.selfClosing
  value htext := (h'.value (h.isText_eq.trans htext)).trans (h.value htext)
  attributes := h.attributes.trans h'.attributes

/-- What is edited without sorting is edited with it. -/
theorem mono (h : c.Edited sorts c') (hsorts : sorts = true → sorts' = true) :
    c.Edited sorts' c' :=
  { h with attributes := h.attributes.mono hsorts }

/-- An edited node takes children if it did before. -/
theorem isLeaf_eq (h : c.Edited sorts c') : c'.isLeaf = c.isLeaf := by
  rw [isLeaf, h.kind, h.isElement_eq, isLeafElement, h.selfClosing, h.name, isLeaf, isLeafElement]

/-- A text may get another value. -/
theorem of_text (htext : c.isText = true) (value : String) : c.Edited sorts { c with value } :=
  ⟨⟨rfl, rfl⟩, rfl, fun hfalse => by simp [htext] at hfalse, .refl _⟩

end Content.Edited

/-! ## Families -/

/-- A node with its children, and whether passes may change the text of these. -/
structure Family where
  id : NodeId
  content : Content
  free : Bool
  children : List (NodeId × Content)

namespace Family

/-- The ids of the children. -/
def members (fam : Family) : List NodeId :=
  fam.children.map (·.1)

/-- What the children hold. -/
def contents (fam : Family) : List Content :=
  fam.children.map (·.2)

/-- The children that are left hold what `after` says. -/
def Leaves (after : Family → List Content) (fam : Family) (left : List (NodeId × Content)) :
    Prop :=
  left.map (·.2) = after fam

end Family

/-- Some children of a family are left, in order: texts and comments may be gone, and the others are
edited. -/
inductive Thins (sorts : Bool) : List (NodeId × Content) → List (NodeId × Content) → Prop where
  | nil : Thins sorts [] []
  | drop {old new} {x : NodeId × Content} : x.2.mayGo = true → Thins sorts old new →
    Thins sorts (x :: old) new
  | keep {old new} (id : NodeId) {c c' : Content} :
    c.Edited sorts c' → Thins sorts old new → Thins sorts ((id, c) :: old) ((id, c') :: new)

namespace Thins

variable {sorts : Bool}

theorem refl (l : List (NodeId × Content)) : Thins sorts l l := by
  induction l with
  | nil => exact .nil
  | cons x l ih => exact .keep x.1 (.refl x.2) ih

/-- Dropping texts and comments thins siblings. -/
theorem filter {keep : NodeId × Content → Bool} {l : List (NodeId × Content)}
    (h : ∀ x ∈ l, keep x = false → x.2.mayGo = true) : Thins sorts l (l.filter keep) := by
  induction l with
  | nil => exact .nil
  | cons x l ih =>
    have hrest := ih fun y hy => h y (by simp [hy])
    rw [List.filter_cons]
    cases hkeep : keep x with
    | false => exact .drop (h x (by simp) hkeep) hrest
    | true => exact .keep x.1 (.refl x.2) hrest

theorem trans {first second third : List (NodeId × Content)} (h : Thins sorts first second)
    (h' : Thins sorts second third) : Thins sorts first third := by
  induction h generalizing third with
  | nil => exact h'
  | drop hgoes _ ih => exact .drop hgoes (ih h')
  | keep id hedited _ ih =>
    cases h' with
    | drop hgoes h' => exact .drop (hedited.mayGo_eq ▸ hgoes) (ih h')
    | keep _ hedited' h' => exact .keep id (hedited.trans hedited') (ih h')

/-- Siblings are thinned from some point on. -/
theorem append_left (before : List (NodeId × Content)) {old new : List (NodeId × Content)}
    (h : Thins sorts old new) : Thins sorts (before ++ old) (before ++ new) := by
  induction before with
  | nil => exact h
  | cons x before ih => exact .keep x.1 (.refl x.2) ih

/-- What is left among siblings was there, and is edited. -/
theorem exists_of_mem {old new : List (NodeId × Content)} (h : Thins sorts old new)
    {x' : NodeId × Content} (hx' : x' ∈ new) : ∃ x ∈ old, x.2.Edited sorts x'.2 := by
  induction h with
  | nil => cases hx'
  | drop _ _ ih =>
    obtain ⟨x, hx, hedited⟩ := ih hx'
    exact ⟨x, List.mem_cons_of_mem _ hx, hedited⟩
  | keep id hedited _ ih =>
    rcases List.mem_cons.mp hx' with rfl | hx'
    · exact ⟨_, List.mem_cons_self, hedited⟩
    · obtain ⟨x, hx, hedited⟩ := ih hx'
      exact ⟨x, List.mem_cons_of_mem _ hx, hedited⟩

/-- The ids of what is left are some of the old ones, in the same order. -/
theorem sublist_map {old new : List (NodeId × Content)} (h : Thins sorts old new) :
    (new.map (·.1)).Sublist (old.map (·.1)) := by
  induction h with
  | nil => exact .slnil
  | drop _ _ ih => exact .cons _ ih
  | keep id _ _ ih => exact .cons_cons _ ih

/-- Editing siblings one by one thins them. -/
theorem map {g : NodeId × Content → Content} {l : List (NodeId × Content)}
    (h : ∀ x ∈ l, x.2.Edited sorts (g x)) : Thins sorts l (l.map fun x => (x.1, g x)) := by
  induction l with
  | nil => exact .nil
  | cons x l ih => exact .keep x.1 (h x (by simp)) (ih fun y hy => h y (by simp [hy]))

end Thins

namespace Forest

/-- All ids of a forest in document order. -/
def allIds (f : NumberedForest) : List NodeId :=
  f.toList.map (·.1)

/-- The families of a forest in document order, given whether text is free above it. -/
def families (free : Bool) : NumberedForest → List Family
  | nil => []
  | node (id, c) children siblings =>
    { id, content := c, free := free && !c.preservesText, children := children.roots } ::
      (children.families (free && !c.preservesText) ++ siblings.families free)

/-- What is listed below a node is listed with it. -/
theorem mem_of_mem_below {α : Type} {a b : α} {below beside : List α} (h : b ∈ below) :
    b ∈ a :: (below ++ beside) :=
  List.mem_cons_of_mem _ (List.mem_append_left _ h)

/-- What is listed after a node is listed with it. -/
theorem mem_of_mem_beside {α : Type} {a b : α} {below beside : List α} (h : b ∈ beside) :
    b ∈ a :: (below ++ beside) :=
  List.mem_cons_of_mem _ (List.mem_append_right _ h)

@[simp]
theorem allIds_nil : allIds nil = [] := rfl

/-- The ids of a forest are that of its first node, those below it, and those of the rest. -/
@[simp]
theorem allIds_node (id : NodeId) (c : Content) (children siblings : NumberedForest) :
    allIds (node (id, c) children siblings) = id :: (children.allIds ++ siblings.allIds) := by
  rw [allIds, toList, List.map_cons, List.map_append]
  rfl

/-- A forest has as many ids as nodes. -/
theorem length_allIds (f : NumberedForest) : f.allIds.length = f.size := by
  induction f with
  | nil => rfl
  | node label children siblings ihc ihs =>
    rw [allIds_node, List.length_cons, List.length_append, ihc, ihs, size]
    omega

/-- There is one family for each node, in document order. -/
theorem map_id_families (free : Bool) (f : NumberedForest) :
    (f.families free).map (·.id) = f.allIds := by
  induction f generalizing free with
  | nil => rfl
  | node label children siblings ihc ihs =>
    rw [families, List.map_cons, List.map_append, ihc, ihs, allIds_node]

/-- Each node is a root or a child in one family. -/
theorem perm_members_families (free : Bool) (f : NumberedForest) :
    (f.ids ++ (f.families free).flatMap (·.members)).Perm f.allIds := by
  induction f generalizing free with
  | nil => exact .nil
  | node label children siblings ihc ihs =>
    obtain ⟨id, c⟩ := label
    rw [families, List.flatMap_cons, List.flatMap_append, allIds_node, ids_node, List.cons_append]
    refine .cons id (.trans ?_ (.append (ihc (free && !c.preservesText)) (ihs free)))
    change (siblings.ids ++ (children.ids ++ (_ ++ _))).Perm _
    rw [← List.append_assoc children.ids]
    exact List.perm_append_comm_assoc ..

/-- Below a node whose text counts as written no text is free. -/
theorem free_of_mem_families_false {f : NumberedForest} {fam : Family}
    (h : fam ∈ f.families false) : fam.free = false := by
  induction f with
  | nil => cases h
  | node label children siblings ihc ihs =>
    rw [families, List.mem_cons, List.mem_append] at h
    rcases h with rfl | h | h
    · rfl
    · exact ihc h
    · exact ihs h

/-- Each root has its family. -/
theorem exists_family_of_mem_roots (free : Bool) {f : NumberedForest} {x : NodeId × Content}
    (h : x ∈ f.roots) : ∃ fam ∈ f.families free, fam.id = x.1 ∧ fam.content = x.2 := by
  induction f with
  | nil => cases h
  | node label children siblings _ ih =>
    obtain ⟨id, c⟩ := label
    rw [roots, List.mem_cons] at h
    rcases h with rfl | h
    · exact ⟨_, List.mem_cons_self, rfl, rfl⟩
    · obtain ⟨fam, hfam, heq⟩ := ih h
      exact ⟨fam, by simp [families, hfam], heq⟩

/-- Each child has its own family. -/
theorem exists_family_of_mem_children {free : Bool} {f : NumberedForest} {fam : Family}
    (hfam : fam ∈ f.families free) {x : NodeId × Content} (hx : x ∈ fam.children) :
    ∃ fam' ∈ f.families free, fam'.id = x.1 ∧ fam'.content = x.2 := by
  induction f generalizing free with
  | nil => cases hfam
  | node label children siblings ihc ihs =>
    obtain ⟨id, c⟩ := label
    rw [families, List.mem_cons, List.mem_append] at hfam
    rcases hfam with rfl | hfam | hfam
    · obtain ⟨fam', hfam', heq⟩ := exists_family_of_mem_roots (free && !c.preservesText) hx
      exact ⟨fam', by rw [families]; simp [hfam'], heq⟩
    · obtain ⟨fam', hfam', heq⟩ := ihc hfam
      exact ⟨fam', by rw [families]; simp [hfam'], heq⟩
    · obtain ⟨fam', hfam', heq⟩ := ihs hfam
      exact ⟨fam', by rw [families]; simp [hfam'], heq⟩

/-! ## What passes leave of a forest -/

/-- What passes leave of a forest, given whether text is free above it: texts and comments may be
gone, the other nodes are edited, and what is left of each family stands in a relation to it. -/
inductive Becomes (sorts : Bool) (Left : Family → List (NodeId × Content) → Prop) :
    Bool → NumberedForest → NumberedForest → Prop where
  | nil {free : Bool} : Becomes sorts Left free nil nil
  | drop {free : Bool} {id : NodeId} {c : Content} {children siblings after : NumberedForest} :
    c.mayGo = true → Becomes sorts Left free siblings after →
    Becomes sorts Left free (node (id, c) children siblings) after
  | keep {free : Bool} {id : NodeId} {c c' : Content}
    {children children' siblings siblings' : NumberedForest} : c.Edited sorts c' →
    Left ⟨id, c, free && !c.preservesText, children.roots⟩ children'.roots →
    Becomes sorts Left (free && !c.preservesText) children children' →
    Becomes sorts Left free siblings siblings' →
    Becomes sorts Left free (node (id, c) children siblings) (node (id, c') children' siblings')

namespace Becomes

variable {sorts free : Bool} {Left Left' : Family → List (NodeId × Content) → Prop}
  {f f' : NumberedForest}

/-- What is left of families may be described in a weaker way. -/
theorem mono (h : f.Becomes sorts Left free f')
    (hleft : ∀ fam ∈ f.families free, ∀ left, Left fam left → Left' fam left) :
    f.Becomes sorts Left' free f' := by
  induction h with
  | nil => exact .nil
  | drop hgoes _ ih =>
    exact .drop hgoes (ih fun fam hfam => hleft fam (by rw [families]; simp [hfam]))
  | keep hedited hhere _ _ ihc ihs =>
    refine .keep hedited (hleft _ (by rw [families]; simp) _ hhere) (ihc fun fam hfam => ?_)
      (ihs fun fam hfam => ?_)
    · exact hleft fam (by rw [families]; simp [hfam])
    · exact hleft fam (by rw [families]; simp [hfam])

/-- A forest becomes itself if its families may stay as they are. -/
theorem refl (hleft : ∀ fam ∈ f.families free, Left fam fam.children) :
    f.Becomes sorts Left free f := by
  induction f generalizing free with
  | nil => exact .nil
  | node label children siblings ihc ihs =>
    rw [families] at hleft
    refine .keep (.refl _) (hleft _ (by simp)) (ihc fun fam hfam => ?_) (ihs fun fam hfam => ?_)
    · exact hleft fam (by simp [hfam])
    · exact hleft fam (by simp [hfam])

/-- The roots that are left are the old ones, thinned. -/
theorem thins_roots (h : f.Becomes sorts Left free f') : Thins sorts f.roots f'.roots := by
  induction h with
  | nil => exact .nil
  | drop hgoes _ ih => exact .drop hgoes ih
  | keep hedited _ _ _ _ ih => exact .keep _ hedited ih

/-- The ids that are left are some of the old ones, in the same order. -/
theorem allIds_sublist (h : f.Becomes sorts Left free f') : f'.allIds.Sublist f.allIds := by
  induction h with
  | nil => exact .slnil
  | drop _ _ ih =>
    rw [allIds_node]
    exact .cons _ (ih.trans (List.sublist_append_right ..))
  | keep _ _ _ _ ihc ihs =>
    rw [allIds_node, allIds_node]
    exact .cons_cons _ (ihc.append ihs)

/-- One change after another, the second by the contents of families. -/
theorem followed_by {after : Family → List Content} {change : List Content → List Content}
    {between : NumberedForest} (h : f.Becomes sorts (Family.Leaves after) free between)
    (h' : between.Becomes false (Family.Leaves fun fam => change fam.contents) free f') :
    f.Becomes sorts (Family.Leaves fun fam => change (after fam)) free f' := by
  induction h generalizing f' with
  | nil =>
    cases h'
    exact .nil
  | drop hgoes _ ih => exact .drop hgoes (ih h')
  | keep hedited hhere _ _ ihc ihs =>
    cases h' with
    | drop hgoes hbeside => exact .drop (hedited.mayGo_eq ▸ hgoes) (ihs hbeside)
    | keep hedited' hhere' hbelow hbeside =>
      rw [hedited.preservesText_eq] at hbelow
      refine .keep (hedited.trans (hedited'.mono (by simp))) ?_ (ihc hbelow) (ihs hbeside)
      rw [Family.Leaves] at hhere hhere' ⊢
      rw [hhere', Family.contents, hhere]

/-- **Each family that is left comes from one that was.** -/
theorem exists_family (h : f.Becomes sorts Left free f') :
    ∀ fam' ∈ f'.families free, ∃ fam ∈ f.families free, fam'.free = fam.free ∧
      fam.content.Edited sorts fam'.content ∧ Thins sorts fam.children fam'.children ∧
      Left fam fam'.children := by
  induction h with
  | nil => exact fun _ hfam' => nomatch hfam'
  | drop _ _ ih =>
    intro fam' hfam'
    obtain ⟨fam, hfam, hcomes⟩ := ih fam' hfam'
    exact ⟨fam, by rw [families]; simp [hfam], hcomes⟩
  | keep hedited hhere hbelow _ ihc ihs =>
    intro fam' hfam'
    rw [families, hedited.preservesText_eq, List.mem_cons, List.mem_append] at hfam'
    rcases hfam' with rfl | hfam' | hfam'
    · exact ⟨_, List.mem_cons_self, rfl, hedited, hbelow.thins_roots, hhere⟩
    · obtain ⟨fam, hfam, hcomes⟩ := ihc fam' hfam'
      exact ⟨fam, by rw [families]; simp [hfam], hcomes⟩
    · obtain ⟨fam, hfam, hcomes⟩ := ihs fam' hfam'
      exact ⟨fam, by rw [families]; simp [hfam], hcomes⟩

end Becomes

/-! ## Walks -/

/-- A walk through all nodes meets the ids in document order. -/
theorem map_walk (parent : Option NodeId) (f : NumberedForest) :
    (f.walk (fun _ => true) parent).map (·.1) = f.allIds := by
  induction f generalizing parent with
  | nil => rfl
  | node label children siblings ihc ihs =>
    rw [walk, if_pos rfl, List.map_cons, List.map_append, ihc, ihs, allIds_node]

/-- A walk that looks for elements meets those of the families. -/
theorem map_filter_walk (free : Bool) (parent : Option NodeId) (f : NumberedForest) :
    ((f.walk (fun _ => true) parent).filter (·.2.isElement)).map (·.1) =
      ((f.families free).filter (·.content.isElement)).map (·.id) := by
  induction f generalizing free parent with
  | nil => rfl
  | node label children siblings ihc ihs =>
    obtain ⟨id, c⟩ := label
    rw [walk, families, if_pos rfl, List.filter_cons, List.filter_cons, List.filter_append,
      List.filter_append]
    by_cases hc : c.isElement = true
    · rw [if_pos hc, if_pos hc, List.map_cons, List.map_append, List.map_cons, List.map_append,
        ihc, ihs]
    · rw [if_neg hc, if_neg hc, List.map_append, List.map_append, ihc, ihs]

/-- The walk that enters the nodes with children whose text is free meets their families. -/
theorem map_filter_walk_free (parent : Option NodeId) (f : NumberedForest) :
    ((f.walk (fun node => !node.children.isEmpty && !node.preservesText) parent).filter
        fun met => !met.2.children.isEmpty && !met.2.preservesText).map (·.1) =
      ((f.families true).filter fun fam => fam.free && !fam.children.isEmpty).map (·.id) := by
  induction f generalizing parent with
  | nil => rfl
  | node label children siblings ihc ihs =>
    obtain ⟨id, c⟩ := label
    have hempty : children.ids.isEmpty = children.roots.isEmpty := by
      rw [ids, List.isEmpty_map]
    rw [walk, families, List.filter_cons, List.filter_cons, List.filter_append, List.filter_append]
    simp only [Bool.true_and, hempty]
    cases hc : c.preservesText with
    | true =>
      -- Below such an element nothing is entered, and no family is free.
      have hnone : (children.families false).filter
          (fun fam => fam.free && !fam.children.isEmpty) = [] := by
        refine List.filter_eq_nil_iff.mpr fun fam hfam => ?_
        rw [free_of_mem_families_false hfam]
        exact Bool.false_ne_true
      simp only [Bool.not_true, Bool.and_false, Bool.false_and, Bool.false_eq_true, if_false,
        List.filter_nil, List.nil_append, hnone, ihs]
    | false =>
      cases hroots : children.roots.isEmpty with
      | true =>
        have hnil : children = nil := by
          rw [← ids_eq_nil_iff, ← List.isEmpty_iff, hempty, hroots]
        subst hnil
        simp [families, ihs]
      | false => simp [ihc, ihs]

end Forest

namespace Document

variable {doc doc' : Document} {parent : Option NodeId}

/-- What a node holds, and its parent. -/
def entry (doc : Document) (id : NodeId) : Option (Content × Option NodeId) :=
  doc.nodes[id]?.map fun node => (node.toContent, node.parent)

/-- The ids that a node lists as its children. -/
def childIds (doc : Document) (id : NodeId) : Option (List NodeId) :=
  doc.nodes[id]?.map (·.children)

/-- A node of the table is known from its content, its parent and its children. -/
theorem getElem?_iff {id : NodeId} {c : Content} {children : List NodeId} :
    doc.nodes[id]? = some { toContent := c, parent, children } ↔
      doc.entry id = some (c, parent) ∧ doc.childIds id = some children := by
  rw [entry, childIds]
  cases doc.nodes[id]? with
  | none => simp
  | some node =>
    obtain ⟨content, above, below⟩ := node
    simp [and_assoc]

/-- An entry of the table belongs to a node. -/
theorem exists_node_of_entry {id : NodeId} {c : Content} (h : doc.entry id = some (c, parent)) :
    ∃ node, doc.nodes[id]? = some node ∧ node.toContent = c ∧ node.parent = parent := by
  obtain ⟨node, hnode, heq⟩ := Option.map_eq_some_iff.mp h
  obtain ⟨rfl, rfl⟩ := Prod.mk.injEq .. ▸ heq
  exact ⟨node, hnode, rfl, rfl⟩

/-- The table holds the family: the node lists its children, and each of these links back. -/
structure Keeps (doc : Document) (fam : Family) : Prop where
  childIds : doc.childIds fam.id = some fam.members
  entry : ∀ child ∈ fam.children, doc.entry child.1 = some (child.2, some fam.id)

/-- **A document shows a forest exactly if it keeps its families.** -/
theorem shows_iff_keeps (free : Bool) {f : NumberedForest} :
    doc.Shows parent f ↔ (∀ root ∈ f.roots, doc.entry root.1 = some (root.2, parent)) ∧
      ∀ fam ∈ f.families free, doc.Keeps fam := by
  induction f generalizing parent free with
  | nil => simp [Shows, Forest.roots, Forest.families]
  | node label children siblings ihc ihs =>
    obtain ⟨id, c⟩ := label
    rw [Shows, ihc (free && !c.preservesText), ihs free, getElem?_iff, Forest.roots,
      Forest.families]
    simp only [List.mem_cons, List.mem_append]
    constructor
    · rintro ⟨⟨hentry, hids⟩, ⟨hroots, hchildren⟩, hbeside, hsiblings⟩
      refine ⟨?_, ?_⟩
      · rintro root (rfl | hroot)
        · exact hentry
        · exact hbeside root hroot
      · rintro fam (rfl | hfam | hfam)
        · exact ⟨hids, hroots⟩
        · exact hchildren fam hfam
        · exact hsiblings fam hfam
    · rintro ⟨hroots, hfamilies⟩
      have hhere := hfamilies _ (.inl rfl)
      exact ⟨⟨hroots _ (.inl rfl), hhere.childIds⟩,
        ⟨hhere.entry, fun fam hfam => hfamilies fam (.inr (.inl hfam))⟩,
        fun root hroot => hroots root (.inr hroot),
        fun fam hfam => hfamilies fam (.inr (.inr hfam))⟩

/-- The table holds what is left of a family, which stands in a relation to the family. -/
def KeepsLeft (doc : Document) (sorts : Bool) (Left : Family → List (NodeId × Content) → Prop)
    (fam : Family) : Prop :=
  ∃ children, Thins sorts fam.children children ∧ Left fam children ∧
    doc.Keeps { fam with children }

/-- **A document that keeps what is left of families shows the forest of it.** -/
theorem exists_shows_of_keepsLeft {sorts free : Bool} {f : NumberedForest}
    {Left : Family → List (NodeId × Content) → Prop} {roots : List (NodeId × Content)}
    (hroots : Thins sorts f.roots roots)
    (hentry : ∀ root ∈ roots, doc.entry root.1 = some (root.2, parent))
    (hkeeps : ∀ fam ∈ f.families free, doc.KeepsLeft sorts Left fam) :
    ∃ f' : NumberedForest, f'.roots = roots ∧ doc.Shows parent f' ∧
      f.Becomes sorts Left free f' := by
  induction f generalizing free parent roots with
  | nil =>
    cases hroots
    exact ⟨.nil, rfl, trivial, .nil⟩
  | node label below beside ihc ihs =>
    obtain ⟨id, c⟩ := label
    rw [Forest.families] at hkeeps
    have hbeside : ∀ fam ∈ beside.families free, doc.KeepsLeft sorts Left fam :=
      fun fam hfam => hkeeps fam (by simp [hfam])
    have hbelow : ∀ fam ∈ below.families (free && !c.preservesText),
        doc.KeepsLeft sorts Left fam := fun fam hfam => hkeeps fam (by simp [hfam])
    rw [Forest.roots] at hroots
    cases hroots with
    | drop hgoes hroots =>
      obtain ⟨f', hf', hshows, hbecomes⟩ := ihs hroots hentry hbeside
      exact ⟨f', hf', hshows, .drop hgoes hbecomes⟩
    | @keep _ new _ _ c' hedited hroots =>
      obtain ⟨children, hthins, hleft, hhere⟩ := hkeeps _ List.mem_cons_self
      obtain ⟨sib', hsib', hshows, hbecomes⟩ :=
        ihs hroots (fun root hroot => hentry root (by simp [hroot])) hbeside
      obtain ⟨ch', rfl, hshows', hbecomes'⟩ := ihc hthins hhere.entry hbelow
      refine ⟨.node (id, c') ch' sib', ?_, ⟨?_, hshows', hshows⟩,
        .keep hedited hleft hbecomes' hbecomes⟩
      · rw [Forest.roots, hsib']
      · exact getElem?_iff.mpr ⟨hentry _ List.mem_cons_self, hhere.childIds⟩

/-! ## Documents with a tree -/

/-- What is reached from the root is a tree: a forest with distinct ids, whose only root is that of
the document. Without a root it is empty. -/
structure HasTree (doc : Document) (above : Option NodeId) (f : NumberedForest) : Prop where
  root_eq : doc.root.toList = f.ids
  shows : doc.Shows above f
  nodup : f.allIds.Nodup

/-- Each node that is shown holds what its family says. -/
theorem Shows.entry {above : Option NodeId} {f : NumberedForest} (h : doc.Shows above f)
    {free : Bool} {fam : Family} (hfam : fam ∈ f.families free) :
    ∃ above, doc.entry fam.id = some (fam.content, above) := by
  induction f generalizing above free with
  | nil => cases hfam
  | node label children siblings ihc ihs =>
    obtain ⟨id, c⟩ := label
    obtain ⟨hnode, hchildren, hsiblings⟩ := h
    rw [Forest.families, List.mem_cons, List.mem_append] at hfam
    rcases hfam with rfl | hfam | hfam
    · exact ⟨above, (getElem?_iff.mp hnode).1⟩
    · exact ihc hchildren hfam
    · exact ihs hsiblings hfam

namespace HasTree

variable {above : Option NodeId} {f : NumberedForest}

/-- A document with a tree keeps its families. -/
theorem keeps (h : doc.HasTree above f) {fam : Family} (hfam : fam ∈ f.families true) :
    doc.Keeps fam :=
  ((shows_iff_keeps true).mp h.shows).2 fam hfam

/-- No two families of a tree belong to one node. -/
theorem nodup_ids (h : doc.HasTree above f) : ((f.families true).map (·.id)).Nodup := by
  rw [Forest.map_id_families]
  exact h.nodup

/-- No node of a tree is a root and a child, or the child of two nodes. -/
theorem nodup_ids_members (h : doc.HasTree above f) :
    (f.ids ++ (f.families true).flatMap (·.members)).Nodup :=
  (Forest.perm_members_families true f).nodup_iff.mpr h.nodup

/-- No node of a tree is the child of two nodes. -/
theorem nodup_members (h : doc.HasTree above f) :
    ((f.families true).flatMap (·.members)).Nodup :=
  (List.nodup_append.mp h.nodup_ids_members).2.1

/-- A root is no child. -/
theorem notMem_members (h : doc.HasTree above f) {root : NodeId} (hroot : root ∈ f.ids) :
    root ∉ (f.families true).flatMap (·.members) :=
  fun hmem => (List.nodup_append.mp h.nodup_ids_members).2.2 root hroot root hmem rfl

/-- A tree has no more levels than the document has nodes. -/
theorem levels_le (h : doc.HasTree above f) : f.levels ≤ doc.size := by
  have hsub : f.allIds ⊆ List.range doc.size := by
    intro id hid
    rw [← Forest.map_id_families true] at hid
    obtain ⟨fam, hfam, rfl⟩ := List.mem_map.mp hid
    obtain ⟨_, hentry⟩ := h.shows.entry hfam
    obtain ⟨node, hnode, _⟩ := exists_node_of_entry hentry
    exact List.mem_range.mpr (Array.getElem?_eq_some_iff.mp hnode).1
  have hsize := (h.nodup.subperm hsub).length_le
  rw [List.length_range, Forest.length_allIds] at hsize
  exact f.levels_le_size.trans hsize

/-- **Visiting a document with a tree walks through the tree.** -/
theorem visitAll (h : doc.HasTree above f) (enter : Node → Bool) :
    doc.visitAll { enter } = .ok (f.walk enter above) := by
  have hvisit := visit_of_shows { enter } h.shows (Nat.le_succ_of_le h.levels_le) fun _ _ => rfl
  rw [← h.root_eq] at hvisit
  rw [Document.visitAll]
  cases hroot : doc.root with
  | none =>
    have hnil : f = .nil := by
      rw [← Forest.ids_eq_nil_iff, ← h.root_eq, hroot]
      rfl
    rw [hnil]
    rfl
  | some root =>
    rw [hroot] at hvisit
    exact hvisit

/-- The descendants in a document with a tree are its nodes, in document order. -/
theorem descendants (h : doc.HasTree above f) :
    doc.descendants = .ok ((f.families true).map (·.id)) := by
  rw [Document.descendants, h.visitAll, Forest.map_id_families, ← Forest.map_walk above]
  rfl

end HasTree

/-- The document is a tree with distinct ids: a document node over the forest. -/
structure Stands (doc : Document) (root : NodeId) (f : NumberedForest) : Prop where
  root_eq : doc.root = some root
  shows : doc.Shows none (.node (root, .document) f .nil)
  nodup : (Forest.allIds (.node (root, .document) f .nil)).Nodup
  levels_le : f.levels ≤ doc.size

/-- All families of a document with a tree. -/
def familiesOf (root : NodeId) (f : NumberedForest) : List Family :=
  Forest.families true (.node (root, .document) f .nil)

namespace Stands

variable {root : NodeId} {f : NumberedForest}

/-- A document that stands has a tree. -/
theorem hasTree (h : doc.Stands root f) : doc.HasTree none (.node (root, .document) f .nil) :=
  ⟨by rw [h.root_eq]; rfl, h.shows, h.nodup⟩

/-- A document with a tree below a document node stands. -/
theorem of_hasTree (h : doc.HasTree none (.node (root, .document) f .nil)) : doc.Stands root f where
  root_eq := by
    have hroot := h.root_eq
    rw [Forest.ids_node, Forest.ids_nil] at hroot
    cases hdoc : doc.root with
    | none => simp [hdoc] at hroot
    | some id => simpa [hdoc] using hroot
  shows := h.shows
  nodup := h.nodup
  levels_le := by
    have hle := h.levels_le
    rw [Forest.levels] at hle
    omega

/-- A document that stands keeps all its families. -/
theorem keeps (h : doc.Stands root f) {fam : Family} (hfam : fam ∈ familiesOf root f) :
    doc.Keeps fam :=
  h.hasTree.keeps hfam

/-- The root is a document node without a parent. -/
theorem entry_root (h : doc.Stands root f) : doc.entry root = some (.document, none) :=
  ((shows_iff_keeps true).mp h.shows).1 _ List.mem_cons_self

/-- No two families of a document belong to one node. -/
theorem nodup_ids (h : doc.Stands root f) : ((familiesOf root f).map (·.id)).Nodup :=
  h.hasTree.nodup_ids

/-- A family is known by its id. -/
theorem eq_of_id_eq (h : doc.Stands root f) {fam fam' : Family} (hfam : fam ∈ familiesOf root f)
    (hfam' : fam' ∈ familiesOf root f) (hid : fam.id = fam'.id) : fam = fam' :=
  List.inj_on_of_nodup_map h.nodup_ids hfam hfam' hid

/-- A node is a child in one family only. -/
theorem eq_of_mem_members (h : doc.Stands root f) {fam fam' : Family}
    (hfam : fam ∈ familiesOf root f) (hfam' : fam' ∈ familiesOf root f) {x : NodeId}
    (hx : x ∈ fam.members) (hx' : x ∈ fam'.members) : fam = fam' := by
  obtain ⟨child, hchild, rfl⟩ := List.mem_map.mp hx
  obtain ⟨child', hchild', heq⟩ := List.mem_map.mp hx'
  have hentry := (h.keeps hfam).entry child hchild
  have hentry' := (h.keeps hfam').entry child' hchild'
  rw [heq, hentry] at hentry'
  obtain ⟨_, hid⟩ := Prod.mk.injEq .. ▸ Option.some.inj hentry'
  exact h.eq_of_id_eq hfam hfam' (Option.some.inj hid)

/-- No node of a document is the child of two nodes. -/
theorem nodup_members (h : doc.Stands root f) :
    ((familiesOf root f).flatMap (·.members)).Nodup :=
  h.hasTree.nodup_members

/-- No node is a child of the same node twice. -/
theorem nodup_members_of_mem (h : doc.Stands root f) {fam : Family}
    (hfam : fam ∈ familiesOf root f) : fam.members.Nodup :=
  (List.nodup_flatMap.mp h.nodup_members).1 fam hfam

/-- The root is no child. -/
theorem root_notMem_members (h : doc.Stands root f) :
    root ∉ (familiesOf root f).flatMap (·.members) :=
  h.hasTree.notMem_members List.mem_cons_self

/-- The node of a family is the root or a child in a family. -/
theorem root_or_child (h : doc.Stands root f) {fam : Family} (hfam : fam ∈ familiesOf root f) :
    (fam.id = root ∧ fam.content = .document) ∨
      ∃ owner ∈ familiesOf root f, (fam.id, fam.content) ∈ owner.children := by
  have hmem : fam.id ∈ Forest.allIds (.node (root, .document) f .nil) := by
    rw [← Forest.map_id_families true]
    exact List.mem_map_of_mem hfam
  rcases List.mem_cons.mp ((Forest.perm_members_families true _).mem_iff.mpr hmem) with
    hroot | hchild
  · have htop : (⟨root, .document, true, f.roots⟩ : Family) ∈ familiesOf root f :=
      List.mem_cons_self
    rw [h.eq_of_id_eq hfam htop hroot]
    exact .inl ⟨rfl, rfl⟩
  · obtain ⟨owner, howner, hx⟩ := List.mem_flatMap.mp hchild
    obtain ⟨child, hchild, hid⟩ := List.mem_map.mp hx
    obtain ⟨own, hown, hid', hcontent⟩ := Forest.exists_family_of_mem_children howner hchild
    rw [h.eq_of_id_eq hfam hown (hid.symm.trans hid'.symm), hid', hcontent]
    exact .inr ⟨owner, howner, hchild⟩

/-- The node of a family holds what the family says. -/
theorem entry (h : doc.Stands root f) {fam : Family} (hfam : fam ∈ familiesOf root f) :
    ∃ above, doc.entry fam.id = some (fam.content, above) :=
  h.shows.entry hfam

/-! ### What walks give -/

/-- **Visiting a document that stands walks through its tree.** -/
theorem visitAll (h : doc.Stands root f) (enter : Node → Bool) :
    doc.visitAll { enter } = .ok (Forest.walk enter none (.node (root, .document) f .nil)) :=
  h.hasTree.visitAll enter

/-- Its descendants are its nodes, in document order. -/
theorem descendants (h : doc.Stands root f) :
    doc.descendants = .ok ((familiesOf root f).map (·.id)) :=
  h.hasTree.descendants

/-- Its elements are those among its families, in document order. -/
theorem elements (h : doc.Stands root f) :
    doc.elements none =
      .ok (((familiesOf root f).filter (·.content.isElement)).map (·.id)) := by
  rw [Document.elements, h.visitAll, familiesOf, ← Forest.map_filter_walk true none]
  rfl

/-- The families whose texts may change. -/
theorem freeParents (h : doc.Stands root f) :
    doc.freeParents = .ok (((familiesOf root f).filter
      fun fam => fam.free && !fam.children.isEmpty).map (·.id)) := by
  rw [Document.freeParents, h.visitAll, familiesOf, ← Forest.map_filter_walk_free none]
  rfl

end Stands

/-- The node of a family that is kept lists the members of the family. -/
theorem node_children_of_keeps {fam : Family} (h : doc.Keeps fam) :
    ∃ node, doc.nodes[fam.id]? = some node ∧ node.children = fam.members :=
  Option.map_eq_some_iff.mp h.childIds

/-- The children of a family's node are those of the family. -/
theorem children_of_keeps {fam : Family} (h : doc.Keeps fam) :
    ∃ nodes, doc.children fam.id = .ok nodes ∧
      nodes.map (fun child => (child.1, child.2.toContent)) = fam.children := by
  obtain ⟨node, hnode, hchildren⟩ := node_children_of_keeps h
  have hread : ∀ children : List (NodeId × Content),
      (∀ child ∈ children, doc.entry child.1 = some (child.2, some fam.id)) →
      ∃ nodes, (children.map (·.1)).mapM (fun child => return (child, ← doc.node child)) =
          Except.ok nodes ∧
        nodes.map (fun child => (child.1, child.2.toContent)) = children := by
    intro children hentry
    induction children with
    | nil => exact ⟨[], rfl, rfl⟩
    | cons child children ih =>
      obtain ⟨node, hnode, hcontent, _⟩ := exists_node_of_entry (hentry child (by simp))
      obtain ⟨nodes, hnodes, hmap⟩ := ih fun other hother => hentry other (by simp [hother])
      refine ⟨(child.1, node) :: nodes, ?_, ?_⟩
      · rw [List.map_cons, List.mapM_cons, hnodes, node_of_getElem? hnode]
        rfl
      · rw [List.map_cons, hmap, hcontent]
  obtain ⟨nodes, hnodes, hmap⟩ := hread fam.children h.entry
  refine ⟨nodes, ?_, hmap⟩
  rw [children, node_of_getElem? hnode]
  change node.children.mapM _ = _
  rw [hchildren]
  exact hnodes

end Document

end HtmlMinify
