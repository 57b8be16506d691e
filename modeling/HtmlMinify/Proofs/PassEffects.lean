import HtmlMinify.Pass.Apply
import HtmlMinify.Proofs.Edits
import Mathlib.Data.List.Flatten

/-!
# What passes do to families

Each pass on its own: what it leaves of every family of a document, and that it changes nothing and
counts nothing where no family gives it work. A pass goes through the tree once; the families it
touches are apart, so what it does to one does not depend on the others.

## Main statements

* `Document.Stands.exists_apply_detach`: passes that take nodes out of their families.
* `Document.Stands.exists_apply_entries`: passes that change nodes one by one.
* `Document.Stands.exists_apply_trimAll`: the pass that trims texts next to blocks.
-/

namespace HtmlMinify

/-! ## Lists of results -/

theorem ok_bind {α β ε : Type} (a : α) (next : α → Except ε β) : (Except.ok a >>= next) = next a :=
  rfl

/-- A look at each element of a list succeeds if it does at all of them. -/
theorem mapM_eq_ok {α β ε : Type} {look : α → Except ε β} {value : α → β} {l : List α}
    (h : ∀ a ∈ l, look a = .ok (value a)) : l.mapM look = .ok (l.map value) := by
  induction l with
  | nil => rfl
  | cons a l ih =>
    rw [List.mapM_cons, h a (by simp), ih fun b hb => h b (by simp [hb])]
    rfl

/-- Filtering by a look succeeds if the look does at all elements. -/
theorem filterM_eq_ok {α ε : Type} {look : α → Except ε Bool} {keep : α → Bool} {l : List α}
    (h : ∀ a ∈ l, look a = .ok (keep a)) : l.filterM look = .ok (l.filter keep) := by
  have haux : ∀ found, l.filterAuxM look found = .ok ((l.filter keep).reverse ++ found) := by
    induction l with
    | nil => exact fun _ => rfl
    | cons a l ih =>
      intro found
      rw [List.filterAuxM, h a (by simp)]
      change l.filterAuxM look (cond (keep a) (a :: found) found) = _
      rw [ih fun b hb => h b (by simp [hb]), List.filter_cons]
      cases keep a <;> simp
  rw [List.filterM, haux]
  simp [bind, Except.bind, pure, Except.pure]

/-- Elements that come to nothing can be filtered out before. -/
theorem flatMap_filter_eq {α β : Type} {keep : α → Bool} {g : α → List β} {l : List α}
    (h : ∀ a ∈ l, keep a = false → g a = []) : (l.filter keep).flatMap g = l.flatMap g := by
  induction l with
  | nil => rfl
  | cons a l ih =>
    rw [List.filter_cons, List.flatMap_cons, ← ih fun b hb => h b (by simp [hb])]
    cases hkeep : keep a with
    | true => rfl
    | false =>
      rw [h a (by simp) hkeep]
      rfl

namespace Family

/-- The ids of the children that are texts, if text is free. -/
def texts (fam : Family) : List NodeId :=
  if fam.free then (fam.children.filter (·.2.isText)).map (·.1) else []

/-- The texts of a family are some of its members. -/
theorem sublist_texts (fam : Family) : fam.texts.Sublist fam.members := by
  rw [texts]
  split
  · exact List.filter_sublist.map _
  · exact List.nil_sublist _

/-- The ids of the children that are blank texts, if text is free. -/
def blanks (fam : Family) : List NodeId :=
  if fam.free then (fam.children.filter (·.2.isBlankText)).map (·.1) else []

/-- The blank texts of a family are some of its members. -/
theorem sublist_blanks (fam : Family) : fam.blanks.Sublist fam.members := by
  rw [blanks]
  split
  · exact List.filter_sublist.map _
  · exact List.nil_sublist _

/-- A child is known by its id. -/
theorem mem_map_filter_iff {fam : Family} (h : fam.members.Nodup) {keep : NodeId × Content → Bool}
    {child : NodeId × Content} (hchild : child ∈ fam.children) :
    child.1 ∈ (fam.children.filter keep).map (·.1) ↔ keep child = true := by
  constructor
  · intro hmem
    obtain ⟨other, hother, heq⟩ := List.mem_map.mp hmem
    obtain ⟨hother, hkeep⟩ := List.mem_filter.mp hother
    rwa [List.inj_on_of_nodup_map h hother hchild heq] at hkeep
  · exact fun hkeep => List.mem_map_of_mem (List.mem_filter.mpr ⟨hchild, hkeep⟩)

end Family

namespace Document

open Edit

variable {doc : Document} {root : NodeId} {f : NumberedForest}

/-! ## Taking nodes out -/

/-- **Taking texts and comments out of a tree**, given those that go for each family. -/
theorem Stands.exists_apply_detach (h : doc.Stands root f) {goes : Family → List NodeId}
    (hgoes : ∀ fam ∈ familiesOf root f, (goes fam).Sublist fam.members)
    (hmayGo : ∀ fam ∈ familiesOf root f, ∀ child ∈ fam.children, child.1 ∈ goes fam →
      child.2.mayGo = true) :
    ∃ n doc' f', (detach ((familiesOf root f).flatMap goes)).apply doc = (.ok n, doc') ∧
      doc'.Stands root f' ∧ Turns false (fun fam left =>
        left = fam.children.filter fun child => !(goes fam).contains child.1) root f f' := by
  have hsub : ((familiesOf root f).flatMap goes).Sublist
      ((familiesOf root f).flatMap (·.members)) := .flatMap_right _ hgoes
  have hmembers : ∀ id ∈ (familiesOf root f).flatMap goes,
      ∃ fam ∈ familiesOf root f, id ∈ fam.members := fun id hid =>
    List.mem_flatMap.mp (hsub.subset hid)
  obtain ⟨n, doc', owners, hrun, hdiffers, hkeeps⟩ := Edit.exists_apply_detach_families
    (fun _ hfam => h.keeps hfam) hmembers
  have hroot : root ∉ (familiesOf root f).flatMap goes :=
    fun hmem => h.root_notMem_members (hsub.subset hmem)
  have hleft : ∀ fam ∈ familiesOf root f, doc'.KeepsLeft false (fun fam left =>
      left = fam.children.filter fun child => !(goes fam).contains child.1) fam := by
    intro fam hfam
    -- A child that goes is no child of another family, so it goes for this one.
    have hhere : ∀ child ∈ fam.children,
        ((familiesOf root f).flatMap goes).contains child.1 = (goes fam).contains child.1 := by
      intro child hchild
      rw [Bool.eq_iff_iff, List.contains_iff_mem, List.contains_iff_mem, List.mem_flatMap]
      refine ⟨?_, fun hmem => ⟨fam, hfam, hmem⟩⟩
      rintro ⟨fam', hfam', hmem⟩
      have heq := h.eq_of_mem_members hfam hfam' (List.mem_map_of_mem hchild)
        ((hgoes fam' hfam').subset hmem)
      rw [heq]
      exact hmem
    refine ⟨_, Thins.filter fun child hchild hgone => ?_, ?_, hkeeps fam hfam⟩
    · rw [hhere child hchild, Bool.not_eq_false', List.contains_iff_mem] at hgone
      exact hmayGo fam hfam child hchild hgone
    · exact List.filter_congr fun child hchild => by rw [hhere child hchild]
  obtain ⟨f', hstands, hturns⟩ := h.exists_of_keepsLeft hdiffers hroot hleft
  exact ⟨n, doc', f', hrun, hstands, hturns⟩

/-! ## Comments -/

/-- The children of a node as the document has them. -/
def childNodes (doc : Document) (id : NodeId) : List (NodeId × Node) :=
  (doc.children id).toOption.getD []

/-- The children of a node are found, and are those of its family. -/
theorem children_eq_ok {fam : Family} (h : doc.Keeps fam) :
    doc.children fam.id = .ok (doc.childNodes fam.id) ∧
      (doc.childNodes fam.id).map (fun child => (child.1, child.2.toContent)) = fam.children := by
  obtain ⟨nodes, hnodes, hmap⟩ := children_of_keeps h
  rw [childNodes, hnodes]
  exact ⟨rfl, hmap⟩

/-- They have the ids of its members, and hold what these hold. -/
theorem map_childNodes {fam : Family} (h : doc.Keeps fam) :
    (doc.childNodes fam.id).map (·.1) = fam.members ∧
      (doc.childNodes fam.id).map (·.2.toContent) = fam.contents := by
  have hmap := (children_eq_ok h).2
  rw [Family.members, Family.contents, ← hmap, List.map_map, List.map_map]
  exact ⟨rfl, rfl⟩

/-- The comments to remove are found family by family. -/
theorem Stands.removableIn (h : doc.Stands root f) :
    Comments.removableIn doc = .ok ((familiesOf root f).flatMap
      fun fam => Comments.removable false (doc.childNodes fam.id)) := by
  have hmap : ((familiesOf root f).map (·.id)).mapM
      (fun parent => do return Comments.removable false (← doc.children parent)) =
        Except.ok (((familiesOf root f).map (·.id)).map
          fun id => Comments.removable false (doc.childNodes id)) := by
    refine mapM_eq_ok fun id hid => ?_
    obtain ⟨fam, hfam, rfl⟩ := List.mem_map.mp hid
    rw [(children_eq_ok (h.keeps hfam)).1]
    rfl
  rw [Comments.removableIn, h.descendants, ok_bind, hmap, ok_bind, List.map_map]
  rfl

/-- What is listed to go among the children of a family is a comment. -/
theorem Stands.isRemovable_of_mem_removable (h : doc.Stands root f) {fam : Family}
    (hfam : fam ∈ familiesOf root f) {child : NodeId × Content} (hchild : child ∈ fam.children)
    (hmem : child.1 ∈ Comments.removable false (doc.childNodes fam.id)) :
    Comments.isRemovable child.2 = true := by
  obtain ⟨node, hnode, hremovable⟩ := Comments.exists_of_mem_removable hmem
  have hother : (child.1, node.toContent) ∈ fam.children := by
    rw [← (children_eq_ok (h.keeps hfam)).2]
    exact List.mem_map_of_mem (f := fun child => (child.1, child.2.toContent)) hnode
  have heq : child = (child.1, node.toContent) :=
    List.inj_on_of_nodup_map (h.nodup_members_of_mem hfam) hchild hother rfl
  rw [heq]
  exact hremovable

/-- Removing comments takes the listed ones out of each family. -/
theorem Stands.exists_apply_removeListed (h : doc.Stands root f) :
    ∃ n doc' f', Comments.remove.apply doc = (.ok n, doc') ∧ doc'.Stands root f' ∧
      Turns false (fun fam left => left = fam.children.filter fun child =>
        !(Comments.removable false (doc.childNodes fam.id)).contains child.1) root f f' := by
  have hgoes : ∀ fam ∈ familiesOf root f,
      (Comments.removable false (doc.childNodes fam.id)).Sublist fam.members := by
    intro fam hfam
    rw [← (map_childNodes (h.keeps hfam)).1]
    exact Comments.sublist_removable false _
  have hmayGo : ∀ fam ∈ familiesOf root f, ∀ child ∈ fam.children,
      child.1 ∈ Comments.removable false (doc.childNodes fam.id) → child.2.mayGo = true :=
    fun fam hfam child hchild hmem =>
      Comments.mayGo_of_isRemovable (h.isRemovable_of_mem_removable hfam hchild hmem)
  obtain ⟨n, doc', f', hrun, hstands, hturns⟩ := h.exists_apply_detach hgoes hmayGo
  refine ⟨n, doc', f', ?_, hstands, hturns⟩
  rw [Comments.remove, apply_bind (apply_read h.removableIn)]
  exact hrun

/-- What removing comments leaves of a family. -/
def uncommented (fam : Family) : List Content :=
  Comments.kept false fam.contents

/-- **Removing comments succeeds, and leaves each family without them.** -/
theorem Stands.exists_apply_removeComments (h : doc.Stands root f) :
    ∃ n doc' f', Comments.remove.apply doc = (.ok n, doc') ∧ doc'.Stands root f' ∧
      Turns false (Family.Leaves uncommented) root f f' := by
  obtain ⟨n, doc', f', hrun, hstands, hturns⟩ := h.exists_apply_removeListed
  refine ⟨n, doc', f', hrun, hstands, hturns.mono fun fam hfam left hleft => ?_⟩
  obtain ⟨hmembers, hcontents⟩ := map_childNodes (h.keeps hfam)
  have hnodup : ((doc.childNodes fam.id).map (·.1)).Nodup := by
    rw [hmembers]
    exact h.nodup_members_of_mem hfam
  rw [Family.Leaves, hleft, uncommented, ← hcontents, ← Comments.map_filter_removable hnodup,
    ← (children_eq_ok (h.keeps hfam)).2, List.filter_map, List.map_map]
  rfl

/-- Where no comment goes, removing comments changes nothing. -/
theorem Stands.apply_removeComments_of_settled (h : doc.Stands root f)
    (hsettled : ∀ fam ∈ familiesOf root f, Comments.Settled false fam.contents) :
    Comments.remove.apply doc = (.ok 0, doc) := by
  have hnone : ((familiesOf root f).flatMap
      fun fam => Comments.removable false (doc.childNodes fam.id)) = [] := by
    refine List.flatMap_eq_nil_iff.mpr fun fam hfam => Comments.removable_of_settled ?_
    rw [(map_childNodes (h.keeps hfam)).2]
    exact hsettled fam hfam
  rw [Comments.remove, apply_bind (apply_read h.removableIn), hnone]
  exact apply_detach_nil doc

/-! ## Texts that may change -/

/-- The texts that passes may change are those of the families. -/
theorem Stands.freeTexts (h : doc.Stands root f) :
    doc.freeTexts = .ok ((familiesOf root f).flatMap (·.texts)) := by
  have hmap : ∀ isText : NodeId × Node → Bool,
      (((familiesOf root f).filter fun fam => fam.free && !fam.children.isEmpty).map
        (·.id)).mapM (fun parent => do
          return ((← doc.children parent).filter isText).map (·.1)) =
        Except.ok ((((familiesOf root f).filter
          fun fam => fam.free && !fam.children.isEmpty).map (·.id)).map
            fun id => ((doc.childNodes id).filter isText).map (·.1)) := by
    intro isText
    refine mapM_eq_ok fun id hid => ?_
    obtain ⟨fam, hfam, rfl⟩ := List.mem_map.mp hid
    rw [(children_eq_ok (h.keeps (List.mem_filter.mp hfam).1)).1]
    rfl
  have hnone : ∀ fam ∈ familiesOf root f,
      (fam.free && !fam.children.isEmpty) = false → fam.texts = [] := by
    intro fam _ hfalse
    rw [Family.texts]
    split
    · next hfree =>
      rw [hfree, Bool.true_and, Bool.not_eq_false', List.isEmpty_iff] at hfalse
      rw [hfalse]
      rfl
    · rfl
  rw [Document.freeTexts, h.freeParents, ok_bind, hmap, ok_bind, List.map_map,
    ← flatMap_filter_eq hnone, List.flatMap_def]
  refine congrArg (fun lists => Except.ok (List.flatten lists)) (List.map_congr_left ?_)
  intro fam hfam
  rw [List.mem_filter, Bool.and_eq_true] at hfam
  rw [Family.texts, if_pos hfam.2.1, ← (children_eq_ok (h.keeps hfam.1)).2, List.filter_map,
    List.map_map]
  rfl

/-! ## Blank texts -/

/-- So are the blank ones among them. -/
theorem Stands.blankTexts (h : doc.Stands root f) :
    Whitespace.blankTexts doc = .ok ((familiesOf root f).flatMap (·.blanks)) := by
  let blank (id : NodeId) : Bool := ((doc.entry id).map fun e => Text.isBlank e.1.value).getD false
  have hblank : ∀ fam ∈ familiesOf root f, ∀ child ∈ fam.children,
      blank child.1 = Text.isBlank child.2.value := by
    intro fam hfam child hchild
    simp only [blank]
    rw [(h.keeps hfam).entry child hchild]
    rfl
  have hlook : ∀ id ∈ (familiesOf root f).flatMap (·.texts),
      (do return Text.isBlank (← doc.node id).value) = Except.ok (blank id) := by
    intro id hid
    obtain ⟨fam, hfam, hmem⟩ := List.mem_flatMap.mp hid
    obtain ⟨child, hchild, rfl⟩ := List.mem_map.mp (fam.sublist_texts.subset hmem)
    obtain ⟨node, hnode, hcontent, _⟩ := exists_node_of_entry ((h.keeps hfam).entry child hchild)
    rw [hblank fam hfam child hchild, node_of_getElem? hnode, ok_bind, hcontent]
    rfl
  rw [Whitespace.blankTexts, h.freeTexts, ok_bind, filterM_eq_ok hlook, List.filter_flatMap]
  refine congrArg Except.ok (List.flatMap_congr fun fam hfam => ?_)
  rw [Family.texts, Family.blanks]
  split
  · rw [List.filter_map, List.filter_filter]
    congr 1
    refine List.filter_congr fun child hchild => ?_
    rw [Function.comp_apply, hblank fam hfam child hchild, Content.isBlankText, Bool.and_comm]
  · rfl

/-- What removing blank texts leaves of a family. -/
def unblanked (fam : Family) : List Content :=
  if fam.free then fam.contents.filter (!·.isBlankText) else fam.contents

/-- **Removing blank texts succeeds, and leaves each family without them.** -/
theorem Stands.exists_apply_removeBlank (h : doc.Stands root f) :
    ∃ n doc' f', Whitespace.removeBlank.apply doc = (.ok n, doc') ∧ doc'.Stands root f' ∧
      Turns false (Family.Leaves unblanked) root f f' := by
  have hblanks : ∀ fam ∈ familiesOf root f, fam.free = true → ∀ child ∈ fam.children,
      (child.1 ∈ fam.blanks ↔ child.2.isBlankText = true) := by
    intro fam hfam hfree child hchild
    rw [Family.blanks, if_pos hfree]
    exact Family.mem_map_filter_iff (h.nodup_members_of_mem hfam) hchild
  have hmayGo : ∀ fam ∈ familiesOf root f, ∀ child ∈ fam.children, child.1 ∈ fam.blanks →
      child.2.mayGo = true := by
    intro fam hfam child hchild hmem
    cases hfree : fam.free with
    | false => simp [Family.blanks, hfree] at hmem
    | true =>
      have hblank := (hblanks fam hfam hfree child hchild).mp hmem
      rw [Content.isBlankText, Bool.and_eq_true] at hblank
      exact Content.mayGo_of_isText hblank.1
  obtain ⟨n, doc', f', hrun, hstands, hturns⟩ :=
    h.exists_apply_detach (fun fam _ => fam.sublist_blanks) hmayGo
  refine ⟨n, doc', f', ?_, hstands, hturns.mono fun fam hfam left hleft => ?_⟩
  · rw [Whitespace.removeBlank, apply_bind (apply_read h.blankTexts)]
    exact hrun
  · rw [Family.Leaves, hleft, unblanked]
    split
    · next hfree =>
      rw [Family.contents, List.filter_map]
      congr 1
      refine List.filter_congr fun child hchild => ?_
      rw [Function.comp_apply]
      congr 1
      rw [Bool.eq_iff_iff, List.contains_iff_mem]
      exact hblanks fam hfam hfree child hchild
    · next hfree =>
      rw [Family.blanks, if_neg hfree]
      simp [Family.contents]

/-- Where no text that may go is blank, removing blank texts changes nothing. -/
theorem Stands.apply_removeBlank_of_filled (h : doc.Stands root f)
    (hfilled : ∀ fam ∈ familiesOf root f, fam.free = true →
      ∀ c ∈ fam.contents, c.isBlankText = false) :
    Whitespace.removeBlank.apply doc = (.ok 0, doc) := by
  have hnone : ((familiesOf root f).flatMap (·.blanks)) = [] := by
    refine List.flatMap_eq_nil_iff.mpr fun fam hfam => ?_
    rw [Family.blanks]
    split
    · next hfree =>
      refine List.map_eq_nil_iff.mpr (List.filter_eq_nil_iff.mpr fun child hchild => ?_)
      rw [hfilled fam hfam hfree child.2 (List.mem_map_of_mem hchild)]
      exact Bool.false_ne_true
    · rfl
  rw [Whitespace.removeBlank, apply_bind (apply_read h.blankTexts), hnone]
  exact apply_detach_nil doc

/-! ## Changing nodes one by one -/

/-- A step at a node changes what the node holds and nothing else. -/
def StepsEntry (step : NodeId → Edit Nat) (change : Content → Content) : Prop :=
  ∀ (doc : Document) (id : NodeId) (c : Content) (above : Option NodeId),
    doc.entry id = some (c, above) → ∃ n doc', (step id).apply doc = (.ok n, doc') ∧
      Differs [] [id] doc doc' ∧ doc'.entry id = some (change c, above)

/-- Going through a list of nodes changes each of them, and none of the others. -/
theorem exists_apply_entries {step : NodeId → Edit Nat} {all : List NodeId → Edit Nat}
    {change : Content → Content} (hstep : StepsEntry step change) (hnil : all [] = pure 0)
    (hcons : ∀ id ids, all (id :: ids) = do return (← step id) + (← all ids)) {ids : List NodeId}
    (hids : ids.Nodup) (hentry : ∀ id ∈ ids, ∃ c above, doc.entry id = some (c, above)) :
    ∃ n doc', (all ids).apply doc = (.ok n, doc') ∧ Differs [] ids doc doc' ∧
      ∀ id ∈ ids, ∀ c above, doc.entry id = some (c, above) →
        doc'.entry id = some (change c, above) := by
  induction ids generalizing doc with
  | nil => exact ⟨0, doc, by rw [hnil]; rfl, .refl doc, by simp⟩
  | cons id ids ih =>
    obtain ⟨hid, hids⟩ := List.nodup_cons.mp hids
    obtain ⟨c, above, hc⟩ := hentry id (by simp)
    obtain ⟨n, doc₁, hrun, hdiffers, hchanged⟩ := hstep doc id c above hc
    have hother : ∀ other ∈ ids, doc₁.entry other = doc.entry other := by
      intro other hmem
      refine hdiffers.entry_eq other ?_
      rw [List.mem_singleton]
      rintro rfl
      exact hid hmem
    obtain ⟨m, doc₂, hrun', hdiffers', hchanged'⟩ := ih hids fun other hmem => by
      rw [hother other hmem]
      exact hentry other (by simp [hmem])
    refine ⟨n + m, doc₂, ?_, hdiffers.trans hdiffers', fun other hmem c' above' hc' => ?_⟩
    · rw [hcons, apply_bind hrun, apply_bind hrun']
      rfl
    · rcases List.mem_cons.mp hmem with rfl | hmem
      · rw [hc] at hc'
        cases hc'
        rw [hdiffers'.entry_eq other hid, hchanged]
      · exact hchanged' other hmem c' above' ((hother other hmem).trans hc')

/-- **Changing nodes of a tree one by one** changes children in their families. -/
theorem Stands.exists_apply_entries (h : doc.Stands root f) {step : NodeId → Edit Nat}
    {all : List NodeId → Edit Nat} {change : Content → Content} (hstep : StepsEntry step change)
    (hnil : all [] = pure 0)
    (hcons : ∀ id ids, all (id :: ids) = do return (← step id) + (← all ids)) {ids : List NodeId}
    (hids : ids.Nodup) (hroot : root ∉ ids)
    (hentry : ∀ id ∈ ids, ∃ c above, doc.entry id = some (c, above)) {sorts : Bool}
    (hedited : ∀ fam ∈ familiesOf root f, ∀ child ∈ fam.children, child.1 ∈ ids →
      child.2.Edited sorts (change child.2)) :
    ∃ n doc' f', (all ids).apply doc = (.ok n, doc') ∧ doc'.Stands root f' ∧
      Turns sorts (fun fam left => left = fam.children.map fun child =>
        (child.1, if ids.contains child.1 then change child.2 else child.2)) root f f' := by
  obtain ⟨n, doc', hrun, hdiffers, hchanged⟩ :=
    Document.exists_apply_entries hstep hnil hcons hids hentry
  have hleft : ∀ fam ∈ familiesOf root f, doc'.KeepsLeft sorts (fun fam left =>
      left = fam.children.map fun child =>
        (child.1, if ids.contains child.1 then change child.2 else child.2)) fam := by
    intro fam hfam
    refine ⟨_, Thins.map fun child hchild => ?_, rfl, ?_, fun child hchild => ?_⟩
    · split
      · next hmem => exact hedited fam hfam child hchild (List.contains_iff_mem.mp hmem)
      · exact .refl child.2
    · rw [hdiffers.childIds_eq fam.id (by simp), (h.keeps hfam).childIds, Family.members,
        Family.members, List.map_map]
      rfl
    · obtain ⟨old, hold, rfl⟩ := List.mem_map.mp hchild
      have hentry := (h.keeps hfam).entry old hold
      by_cases hmem : old.1 ∈ ids
      · rw [if_pos (List.contains_iff_mem.mpr hmem)]
        exact hchanged old.1 hmem old.2 (some fam.id) hentry
      · rw [if_neg (by rwa [List.contains_iff_mem]), hdiffers.entry_eq old.1 hmem, hentry]
  obtain ⟨f', hstands, hturns⟩ := h.exists_of_keepsLeft hdiffers hroot hleft
  exact ⟨n, doc', f', hrun, hstands, hturns⟩

/-! ## Collapsing whitespace -/

/-- Setting a text changes its value, and nothing else. -/
theorem stepsEntry_setText (change : String → String) :
    StepsEntry (fun id => Whitespace.setText id change)
      fun c => { c with value := change c.value } := by
  intro doc id c above hentry
  dsimp only
  obtain ⟨node, hnode, rfl, rfl⟩ := exists_node_of_entry hentry
  by_cases hsame : change node.value = node.value
  · refine ⟨0, doc, ?_, (Differs.refl doc).mono (by simp) (by simp), ?_⟩
    · rw [Whitespace.setText, apply_bind (apply_node hnode), if_pos hsame]
      rfl
    · rw [hentry, hsame]
  · refine ⟨1, doc.altered id fun node' => { node' with value := change node.value }, ?_,
      differs_altered_entry doc id (fun _ => rfl) fun _ => ⟨rfl, rfl⟩, ?_⟩
    · rw [Whitespace.setText, apply_bind (apply_node hnode), if_neg hsame]
      change (Edit.alter id _ >>= fun _ => pure 1).apply doc = _
      rw [apply_bind (apply_alter hnode _)]
      rfl
    · rw [entry, getElem?_altered, if_pos rfl, hnode]
      rfl

/-- A text that a change leaves as it is counts for nothing. -/
theorem apply_setText_of_eq {id : NodeId} {c : Content} {above : Option NodeId}
    (hentry : doc.entry id = some (c, above)) {change : String → String}
    (h : change c.value = c.value) : (Whitespace.setText id change).apply doc = (.ok 0, doc) := by
  obtain ⟨node, hnode, rfl, rfl⟩ := exists_node_of_entry hentry
  rw [Whitespace.setText, apply_bind (apply_node hnode), if_pos h]
  rfl

/-- What collapsing whitespace leaves of a family. -/
def collapsed (fam : Family) : List Content :=
  if fam.free then fam.contents.map Whitespace.collapsed else fam.contents

/-- A child is one of the texts that passes may change if it is a text in a family whose text is
free. -/
theorem Stands.mem_texts_iff (h : doc.Stands root f) {fam : Family}
    (hfam : fam ∈ familiesOf root f) {child : NodeId × Content} (hchild : child ∈ fam.children) :
    child.1 ∈ (familiesOf root f).flatMap (·.texts) ↔
      fam.free = true ∧ child.2.isText = true := by
  have hhere : child.1 ∈ fam.texts ↔ fam.free = true ∧ child.2.isText = true := by
    rw [Family.texts]
    split
    · next hfree =>
      rw [Family.mem_map_filter_iff (h.nodup_members_of_mem hfam) hchild]
      simp [hfree]
    · next hfree => simp [hfree]
  rw [← hhere, List.mem_flatMap]
  refine ⟨?_, fun hmem => ⟨fam, hfam, hmem⟩⟩
  rintro ⟨fam', hfam', hmem⟩
  rwa [h.eq_of_mem_members hfam hfam' (List.mem_map_of_mem hchild)
    (fam'.sublist_texts.subset hmem)]

/-- **Collapsing all texts succeeds, and collapses those of each family.** -/
theorem Stands.exists_apply_collapseAll (h : doc.Stands root f) :
    ∃ n doc' f', Whitespace.collapseAll.apply doc = (.ok n, doc') ∧ doc'.Stands root f' ∧
      Turns false (Family.Leaves collapsed) root f f' := by
  have hsub : ((familiesOf root f).flatMap (·.texts)).Sublist
      ((familiesOf root f).flatMap (·.members)) :=
    .flatMap_right _ fun fam _ => fam.sublist_texts
  have hentry : ∀ id ∈ (familiesOf root f).flatMap (·.texts),
      ∃ c above, doc.entry id = some (c, above) := by
    intro id hid
    obtain ⟨fam, hfam, hmem⟩ := List.mem_flatMap.mp hid
    obtain ⟨child, hchild, rfl⟩ := List.mem_map.mp (fam.sublist_texts.subset hmem)
    exact ⟨_, _, (h.keeps hfam).entry child hchild⟩
  obtain ⟨n, doc', f', hrun, hstands, hturns⟩ := h.exists_apply_entries
    (stepsEntry_setText Text.collapse) (rfl : Whitespace.collapseTexts [] = pure 0)
    (fun _ _ => rfl) (h.nodup_members.sublist hsub)
    (fun hmem => h.root_notMem_members (hsub.subset hmem)) hentry
    fun fam hfam child hchild hmem => .of_text ((h.mem_texts_iff hfam hchild).mp hmem).2 _
  refine ⟨n, doc', f', ?_, hstands, hturns.mono fun fam hfam left hleft => ?_⟩
  · rw [Whitespace.collapseAll, apply_bind (apply_read h.freeTexts)]
    exact hrun
  · have hcontents : left.map (·.2) = fam.children.map fun child =>
        if fam.free && child.2.isText then { child.2 with value := Text.collapse child.2.value }
        else child.2 := by
      rw [hleft, List.map_map]
      refine List.map_congr_left fun child hchild => ?_
      have hiff := h.mem_texts_iff hfam hchild
      rw [← Bool.and_eq_true, ← List.contains_iff_mem, ← Bool.eq_iff_iff] at hiff
      rw [Function.comp_apply, hiff]
    rw [Family.Leaves, hcontents, collapsed]
    cases fam.free with
    | false => simp [Family.contents]
    | true =>
      rw [if_pos rfl, Family.contents, List.map_map]
      rfl

/-- Where texts that may change are collapsed, collapsing changes nothing. -/
theorem Stands.apply_collapseAll_of_collapsed (h : doc.Stands root f)
    (hcollapsed : ∀ fam ∈ familiesOf root f, fam.free = true →
      ∀ c ∈ fam.contents, c.isText = true → Text.collapse c.value = c.value) :
    Whitespace.collapseAll.apply doc = (.ok 0, doc) := by
  have hrun : ∀ ids : List NodeId, (∀ id ∈ ids, ∃ c above, doc.entry id = some (c, above) ∧
      Text.collapse c.value = c.value) →
      (Whitespace.collapseTexts ids).apply doc = (.ok 0, doc) := by
    intro ids hids
    induction ids with
    | nil => rfl
    | cons id ids ih =>
      obtain ⟨c, above, hentry, hc⟩ := hids id (by simp)
      rw [Whitespace.collapseTexts, apply_bind (apply_setText_of_eq hentry hc),
        apply_bind (ih fun other hmem => hids other (by simp [hmem]))]
      rfl
  rw [Whitespace.collapseAll, apply_bind (apply_read h.freeTexts)]
  refine hrun _ fun id hid => ?_
  obtain ⟨fam, hfam, hmem⟩ := List.mem_flatMap.mp hid
  obtain ⟨child, hchild, rfl⟩ := List.mem_map.mp (fam.sublist_texts.subset hmem)
  obtain ⟨hfree, htext⟩ := (h.mem_texts_iff hfam hchild).mp hid
  exact ⟨child.2, _, (h.keeps hfam).entry child hchild,
    hcollapsed fam hfam hfree child.2 (List.mem_map_of_mem hchild) htext⟩

/-! ## Attributes -/

/-- An element with its attributes by a rule; all else stays. -/
def ruled (rule : Content → AttributeRule.Result) (c : Content) : Content :=
  if c.isElement then { c with attributes := (rule c).1 } else c

/-- What a rule does to attributes, passes may do. -/
def Pares (sorts : Bool) (rule : Content → AttributeRule.Result) : Prop :=
  ∀ c : Content, c.attributes.Pared sorts (rule c).1

/-- A rule is applied to one element after the other. -/
theorem applyRule_cons (rule : Content → AttributeRule.Result) (id : NodeId) (ids : List NodeId) :
    Pass.applyRule rule (id :: ids) =
      do return (← Pass.applyRule rule [id]) + (← Pass.applyRule rule ids) := by
  simp only [Pass.applyRule, bind_assoc, pure_bind, Nat.add_zero]

/-- A rule on one element replaces its attributes. -/
theorem apply_applyRule_singleton (rule : Content → AttributeRule.Result) {id : NodeId}
    {node : Node} (hnode : doc.nodes[id]? = some node) :
    (Pass.applyRule rule [id]).apply doc = (.ok (rule node.toContent).2,
      doc.altered id fun other => { other with attributes := (rule node.toContent).1 }) := by
  rw [Pass.applyRule, apply_bind (apply_node hnode)]
  simp only
  rw [apply_bind (apply_alter hnode _)]
  rfl

theorem stepsEntry_applyRule (rule : Content → AttributeRule.Result) :
    StepsEntry (fun id => Pass.applyRule rule [id])
      fun c => { c with attributes := (rule c).1 } := by
  intro doc id c above hentry
  dsimp only
  obtain ⟨node, hnode, rfl, rfl⟩ := exists_node_of_entry hentry
  refine ⟨_, _, apply_applyRule_singleton rule hnode,
    differs_altered_entry doc id (fun _ => rfl) fun _ => ⟨rfl, rfl⟩, ?_⟩
  rw [entry, getElem?_altered, if_pos rfl, hnode]
  rfl

/-- What a rule on attributes leaves of a family. -/
def ruledIn (rule : Content → AttributeRule.Result) (fam : Family) : List Content :=
  fam.contents.map (ruled rule)

/-- The elements of a tree are its nodes that hold an element. -/
theorem Stands.mem_elements_iff (h : doc.Stands root f) {id : NodeId} {c : Content}
    {above : Option NodeId} (hentry : doc.entry id = some (c, above))
    (hid : ∃ fam ∈ familiesOf root f, fam.id = id) :
    id ∈ ((familiesOf root f).filter (·.content.isElement)).map (·.id) ↔ c.isElement = true := by
  constructor
  · intro hmem
    obtain ⟨fam, hfam, rfl⟩ := List.mem_map.mp hmem
    obtain ⟨hfam, helement⟩ := List.mem_filter.mp hfam
    obtain ⟨above', habove'⟩ := h.entry hfam
    rw [habove'] at hentry
    cases hentry
    exact helement
  · intro helement
    obtain ⟨fam, hfam, rfl⟩ := hid
    obtain ⟨above', habove'⟩ := h.entry hfam
    rw [habove'] at hentry
    cases hentry
    exact List.mem_map_of_mem (List.mem_filter.mpr ⟨hfam, helement⟩)

/-- **A rule on all elements succeeds, and changes those of each family.** -/
theorem Stands.exists_apply_onElements (h : doc.Stands root f) {sorts : Bool}
    {rule : Content → AttributeRule.Result} (hpares : Pares sorts rule) :
    ∃ n doc' f', (Pass.onElements rule).apply doc = (.ok n, doc') ∧ doc'.Stands root f' ∧
      Turns sorts (Family.Leaves (ruledIn rule)) root f f' := by
  have hentry : ∀ id ∈ ((familiesOf root f).filter (·.content.isElement)).map (·.id),
      ∃ c above, doc.entry id = some (c, above) := by
    intro id hid
    obtain ⟨fam, hfam, rfl⟩ := List.mem_map.mp hid
    exact ⟨_, h.entry (List.mem_filter.mp hfam).1⟩
  have hroot : root ∉ ((familiesOf root f).filter (·.content.isElement)).map (·.id) := by
    rw [h.mem_elements_iff h.entry_root ⟨_, List.mem_cons_self, rfl⟩]
    decide
  obtain ⟨n, doc', f', hrun, hstands, hturns⟩ := h.exists_apply_entries
    (stepsEntry_applyRule rule) (rfl : Pass.applyRule rule [] = pure 0) (applyRule_cons rule)
    (h.nodup_ids.sublist (List.filter_sublist.map _)) hroot hentry
    fun _ _ child _ _ => ⟨⟨rfl, rfl⟩, rfl, fun _ => rfl, hpares child.2⟩
  refine ⟨n, doc', f', ?_, hstands, hturns.mono fun fam hfam left hleft => ?_⟩
  · rw [Pass.onElements, apply_bind (apply_read h.elements)]
    exact hrun
  · rw [Family.Leaves, hleft, ruledIn, Family.contents, List.map_map, List.map_map]
    refine List.map_congr_left fun child hchild => ?_
    obtain ⟨own, hown, hid, _⟩ := Forest.exists_family_of_mem_children hfam hchild
    have hiff := h.mem_elements_iff ((h.keeps hfam).entry child hchild) ⟨own, hown, hid⟩
    rw [← List.contains_iff_mem, ← Bool.eq_iff_iff] at hiff
    rw [Function.comp_apply, hiff]
    rfl

/-- Where a rule keeps the attributes of each element, applying it changes nothing. -/
theorem Stands.apply_onElements_of_keep (h : doc.Stands root f)
    {rule : Content → AttributeRule.Result}
    (hkeep : ∀ fam ∈ familiesOf root f, ∀ c ∈ fam.contents, c.isElement = true →
      rule c = AttributeRule.keep c.attributes) :
    (Pass.onElements rule).apply doc = (.ok 0, doc) := by
  have hrun : ∀ ids : List NodeId, (∀ id ∈ ids, ∃ c above, doc.entry id = some (c, above) ∧
      rule c = AttributeRule.keep c.attributes) →
      (Pass.applyRule rule ids).apply doc = (.ok 0, doc) := by
    intro ids hids
    induction ids with
    | nil => rfl
    | cons id ids ih =>
      obtain ⟨c, above, hentry, hc⟩ := hids id (by simp)
      obtain ⟨node, hnode, rfl, _⟩ := exists_node_of_entry hentry
      have hsame : doc.altered id (fun other => { other with
          attributes := (rule node.toContent).1 }) = doc := by
        refine altered_of_eq_self fun other hother => ?_
        rw [hnode] at hother
        cases hother
        rw [hc]
        rfl
      have hhere := apply_applyRule_singleton rule hnode
      rw [hsame, hc] at hhere
      rw [applyRule_cons, apply_bind hhere,
        apply_bind (ih fun other hmem => hids other (by simp [hmem]))]
      rfl
  rw [Pass.onElements, apply_bind (apply_read h.elements)]
  refine hrun _ fun id hid => ?_
  obtain ⟨fam, hfam, rfl⟩ := List.mem_map.mp hid
  obtain ⟨hfam, helement⟩ := List.mem_filter.mp hfam
  obtain ⟨above, habove⟩ := h.entry hfam
  refine ⟨fam.content, above, habove, ?_⟩
  rcases h.root_or_child hfam with ⟨_, hcontent⟩ | ⟨owner, howner, hchild⟩
  · rw [hcontent] at helement
    cases helement
  · exact hkeep owner howner fam.content (List.mem_map.mpr ⟨_, hchild, rfl⟩) helement

/-! ## Trimming next to blocks -/

/-- Trims the texts below one node. -/
def trimChildren (parent : NodeId) : Edit Nat := do
  let parent ← Edit.node parent
  Whitespace.trimSiblings parent.toContent none parent.children

/-- Trimming goes through the families one after the other. -/
theorem trimBelow_cons (parent : NodeId) (parents : List NodeId) :
    Whitespace.trimBelow (parent :: parents) =
      do return (← trimChildren parent) + (← Whitespace.trimBelow parents) := by
  rw [Whitespace.trimBelow, trimChildren]
  simp only [bind_assoc]

/-- Trims a node that may be a text. -/
def trimText (parent : Content) (before after : Option Content) (id : NodeId) (c : Content) :
    Edit Nat :=
  if c.isText then Whitespace.setText id (Whitespace.trimmed parent before after) else pure 0

/-- Trimming looks at a node, and at the next one, before it goes on. -/
theorem trimSiblings_cons (parent : Content) (before : Option Content) (id : NodeId)
    (ids : List NodeId) :
    Whitespace.trimSiblings parent before (id :: ids) = do
      let node ← Edit.node id
      let after ← ids.head?.mapM Edit.node
      let changed ← trimText parent before (after.map (·.toContent)) id node.toContent
      return changed + (← Whitespace.trimSiblings parent (some node.toContent) ids) := by
  rw [Whitespace.trimSiblings]
  refine bind_congr fun node => bind_congr fun after => ?_
  rw [trimText]
  split <;> rfl

/-- The node after another is found, if there is one. -/
theorem exists_apply_head? {l : List (NodeId × Content)} {owner : NodeId}
    (hentry : ∀ child ∈ l, doc.entry child.1 = some (child.2, some owner)) :
    ∃ after : Option Node, ((l.map (·.1)).head?.mapM Edit.node).apply doc = (.ok after, doc) ∧
      after.map (·.toContent) = (l.map (·.2)).head? := by
  cases l with
  | nil => exact ⟨none, rfl, rfl⟩
  | cons child l =>
    obtain ⟨node, hnode, hcontent, _⟩ := exists_node_of_entry (hentry child (by simp))
    refine ⟨some node, ?_, by rw [Option.map_some, hcontent]; rfl⟩
    rw [List.map_cons, List.head?_cons, Option.mapM_some, map_eq_pure_bind,
      apply_bind (apply_node hnode)]
    rfl

/-- Trimming one node edits it if it is a text, and leaves all others. -/
theorem exists_apply_trimText (parent : Content) (before after : Option Content) {id : NodeId}
    {c : Content} {above : Option NodeId} (hentry : doc.entry id = some (c, above)) :
    ∃ n doc' c', (trimText parent before after id c).apply doc = (.ok n, doc') ∧
      Differs [] [id] doc doc' ∧ doc'.entry id = some (c', above) ∧ c.Edited false c' ∧
      c' = if c.isText then { c with value := Whitespace.trimmed parent before after c.value }
        else c := by
  rw [trimText]
  split
  · next htext =>
    obtain ⟨n, doc', hrun, hdiffers, hchanged⟩ := stepsEntry_setText
      (Whitespace.trimmed parent before after) doc id c above hentry
    exact ⟨n, doc', _, hrun, hdiffers, hchanged, .of_text htext _, rfl⟩
  · exact ⟨0, doc, c, rfl, (Differs.refl doc).mono (by simp) (by simp), hentry, .refl c, rfl⟩

/-- Trimming siblings edits the texts among them, each by its neighbours as they were. -/
theorem exists_apply_trimSiblings (parent : Content) (before : Option Content) {owner : NodeId}
    {l : List (NodeId × Content)}
    (hentry : ∀ child ∈ l, doc.entry child.1 = some (child.2, some owner))
    (hnodup : (l.map (·.1)).Nodup) :
    ∃ n doc' left, (Whitespace.trimSiblings parent before (l.map (·.1))).apply doc =
        (.ok n, doc') ∧ left.map (·.1) = l.map (·.1) ∧
      left.map (·.2) = Whitespace.trimmedSiblings parent before (l.map (·.2)) ∧
      Thins false l left ∧
      (∀ child ∈ left, doc'.entry child.1 = some (child.2, some owner)) ∧
      Differs [] (l.map (·.1)) doc doc' := by
  induction l generalizing doc before with
  | nil => exact ⟨0, doc, [], rfl, rfl, rfl, .nil, by simp, .refl doc⟩
  | cons child l ih =>
    obtain ⟨id, c⟩ := child
    rw [List.map_cons, List.nodup_cons] at hnodup
    obtain ⟨hid, hnodup⟩ := hnodup
    have hc : doc.entry id = some (c, some owner) := hentry (id, c) (by simp)
    obtain ⟨node, hnode, hcontent, _⟩ := exists_node_of_entry hc
    have hl : ∀ child ∈ l, doc.entry child.1 = some (child.2, some owner) :=
      fun child hchild => hentry child (by simp [hchild])
    obtain ⟨after, hafter, hnext⟩ := exists_apply_head? hl
    obtain ⟨n, doc₁, c', hrun, hdiffers, hc', hedited, hchanged⟩ :=
      exists_apply_trimText parent before (l.map (·.2)).head? hc
    have hl₁ : ∀ child ∈ l, doc₁.entry child.1 = some (child.2, some owner) := by
      refine hdiffers.entries hl fun child hchild hmem => ?_
      exact hid (List.mem_map.mpr ⟨child, hchild, List.mem_singleton.mp hmem⟩)
    obtain ⟨m, doc₂, left, hrun', hids, hleft, hthins, hentry', hdiffers'⟩ :=
      ih (some c) hl₁ hnodup
    refine ⟨n + m, doc₂, (id, c') :: left, ?_, ?_, ?_, .keep id hedited hthins,
      fun child hchild => ?_, hdiffers.trans hdiffers'⟩
    · rw [List.map_cons, trimSiblings_cons, apply_bind (apply_node hnode), apply_bind hafter, hnext,
        hcontent, apply_bind hrun, apply_bind hrun']
      rfl
    · rw [List.map_cons, hids, List.map_cons]
    · rw [List.map_cons, hleft, List.map_cons, Whitespace.trimmedSiblings, hchanged]
    · rcases List.mem_cons.mp hchild with rfl | hchild
      · rw [hdiffers'.entry_eq id hid, hc']
      · exact hentry' child hchild

/-- What trimming leaves of a family whose text is free. -/
def trimmedIn (fam : Family) : List Content :=
  Whitespace.trimmedSiblings fam.content none fam.contents

/-- **Trimming the children of a node does to its family what it should**, and nothing to the
others. -/
theorem stepsFamily_trimChildren : StepsFamily trimChildren (Family.Leaves trimmedIn) := by
  rintro fam doc hkeeps hnodup ⟨c, above, hentry, halike⟩
  obtain ⟨node, hnode, rfl, _⟩ := exists_node_of_entry hentry
  obtain ⟨node', hnode', hchildren⟩ := node_children_of_keeps hkeeps
  rw [hnode] at hnode'
  cases hnode'
  obtain ⟨n, doc', left, hrun, hids, hleft, hthins, hentry', hdiffers⟩ :=
    exists_apply_trimSiblings node.toContent none hkeeps.entry hnodup
  refine ⟨n, doc', ?_, ⟨left, hthins, ?_, ?_, hentry'⟩,
    hdiffers.mono (by simp) (List.Subset.refl _)⟩
  · rw [trimChildren, apply_bind (apply_node hnode), hchildren]
    exact hrun
  · rw [Family.Leaves, hleft]
    exact Whitespace.trimmedSiblings_congr halike _ _
  · rw [hdiffers.childIds_eq fam.id (by simp), hkeeps.childIds, Family.members, Family.members,
      hids]

/-- What trimming leaves of a family. -/
def trimmed (fam : Family) : List Content :=
  if fam.free then trimmedIn fam else fam.contents

/-- **Trimming next to blocks** trims the texts of each family whose text is free. -/
theorem Stands.exists_apply_trimAll (h : doc.Stands root f) :
    ∃ n doc' f', Whitespace.trimAll.apply doc = (.ok n, doc') ∧ doc'.Stands root f' ∧
      Turns false (Family.Leaves trimmed) root f f' := by
  have hsub : ((familiesOf root f).filter fun fam => fam.free && !fam.children.isEmpty).Sublist
      (familiesOf root f) := List.filter_sublist
  obtain ⟨n, doc', hrun, hleft, hdiffers⟩ := exists_apply_families stepsFamily_trimChildren rfl
    trimBelow_cons (h.nodup_ids.sublist (hsub.map _)) (h.nodup_members.sublist (hsub.flatMap _))
    (fun _ hfam => h.keeps (hsub.subset hfam)) fun fam hfam =>
      let ⟨above, habove⟩ := h.entry (hsub.subset hfam)
      ⟨fam.content, above, habove, .refl _⟩
  have hroot : root ∉ ((familiesOf root f).filter
      fun fam => fam.free && !fam.children.isEmpty).flatMap (·.members) :=
    fun hmem => h.root_notMem_members ((hsub.flatMap _).subset hmem)
  have hkeeps : ∀ fam ∈ familiesOf root f,
      doc'.KeepsLeft false (Family.Leaves trimmed) fam := by
    intro fam hfam
    cases hin : fam.free && !fam.children.isEmpty with
    | true =>
      obtain ⟨left, hthins, htrimmed, hkeeps⟩ := hleft fam (List.mem_filter.mpr ⟨hfam, hin⟩)
      rw [Bool.and_eq_true] at hin
      exact ⟨left, hthins, by rw [Family.Leaves, trimmed, if_pos hin.1]; exact htrimmed, hkeeps⟩
    | false =>
      -- The family is away from those that were trimmed.
      have haway : ∀ fam' ∈ (familiesOf root f).filter
          (fun fam => fam.free && !fam.children.isEmpty), fam' ≠ fam := by
        rintro fam' hfam' rfl
        rw [(List.mem_filter.mp hfam').2] at hin
        cases hin
      refine ⟨fam.children, .refl _, ?_, hdiffers.keeps (h.keeps hfam) ?_ ?_⟩
      · rw [Family.Leaves, trimmed]
        split
        · next hfree =>
          rw [hfree, Bool.true_and, Bool.not_eq_false', List.isEmpty_iff] at hin
          rw [trimmedIn, Family.contents, hin]
          rfl
        · rfl
      · intro hmem
        obtain ⟨fam', hfam', hid⟩ := List.mem_map.mp hmem
        exact haway fam' hfam' (h.eq_of_id_eq (hsub.subset hfam') hfam hid)
      · intro x hx hmem
        obtain ⟨fam', hfam', hx'⟩ := List.mem_flatMap.mp hmem
        exact haway fam' hfam' (h.eq_of_mem_members (hsub.subset hfam') hfam hx' hx)
  obtain ⟨f', hstands, hturns⟩ := h.exists_of_keepsLeft hdiffers hroot hkeeps
  refine ⟨n, doc', f', ?_, hstands, hturns⟩
  rw [Whitespace.trimAll, apply_bind (apply_read h.freeParents)]
  exact hrun

/-- Siblings that are trimmed stay as they are. -/
theorem apply_trimSiblings_of_trimmed {parent : Content} {before : Option Content}
    {owner : NodeId} {l : List (NodeId × Content)}
    (hentry : ∀ child ∈ l, doc.entry child.1 = some (child.2, some owner))
    (htrimmed : Whitespace.Trimmed parent before (l.map (·.2))) :
    (Whitespace.trimSiblings parent before (l.map (·.1))).apply doc = (.ok 0, doc) := by
  induction l generalizing before with
  | nil => rfl
  | cons child l ih =>
    obtain ⟨id, c⟩ := child
    have hc : doc.entry id = some (c, some owner) := hentry (id, c) (by simp)
    obtain ⟨node, hnode, hcontent, _⟩ := exists_node_of_entry hc
    have hl : ∀ child ∈ l, doc.entry child.1 = some (child.2, some owner) :=
      fun child hchild => hentry child (by simp [hchild])
    obtain ⟨after, hafter, hnext⟩ := exists_apply_head? hl
    have hhere : (trimText parent before (l.map (·.2)).head? id c).apply doc = (.ok 0, doc) := by
      rw [trimText]
      split
      · next htext => exact apply_setText_of_eq hc (htrimmed.1 htext)
      · rfl
    rw [List.map_cons, trimSiblings_cons, apply_bind (apply_node hnode), apply_bind hafter, hnext,
      hcontent, apply_bind hhere, apply_bind (ih hl htrimmed.2)]
    rfl

/-- Where texts that may change are trimmed, trimming changes nothing. -/
theorem Stands.apply_trimAll_of_trimmed (h : doc.Stands root f)
    (htrimmed : ∀ fam ∈ familiesOf root f, fam.free = true →
      Whitespace.Trimmed fam.content none fam.contents) :
    Whitespace.trimAll.apply doc = (.ok 0, doc) := by
  have hrun : ∀ fams : List Family, (∀ fam ∈ fams, fam ∈ familiesOf root f ∧ fam.free = true) →
      (Whitespace.trimBelow (fams.map (·.id))).apply doc = (.ok 0, doc) := by
    intro fams hfams
    induction fams with
    | nil => rfl
    | cons fam fams ih =>
      obtain ⟨hfam, hfree⟩ := hfams fam (by simp)
      obtain ⟨node, hnode, hchildren⟩ := node_children_of_keeps (h.keeps hfam)
      obtain ⟨above, habove⟩ := h.entry hfam
      obtain ⟨node', hnode', hcontent, _⟩ := exists_node_of_entry habove
      rw [hnode] at hnode'
      cases hnode'
      have hhere : (trimChildren fam.id).apply doc = (.ok 0, doc) := by
        rw [trimChildren, apply_bind (apply_node hnode), hchildren, hcontent]
        exact apply_trimSiblings_of_trimmed (h.keeps hfam).entry (htrimmed fam hfam hfree)
      rw [List.map_cons, trimBelow_cons, apply_bind hhere,
        apply_bind (ih fun fam hfam => hfams fam (by simp [hfam]))]
      rfl
  rw [Whitespace.trimAll, apply_bind (apply_read h.freeParents)]
  refine hrun _ fun fam hfam => ?_
  rw [List.mem_filter, Bool.and_eq_true] at hfam
  exact ⟨hfam.1, hfam.2.1⟩

end Document

end HtmlMinify
