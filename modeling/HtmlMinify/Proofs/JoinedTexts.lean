import HtmlMinify.Proofs.Edits
import Mathlib.Data.List.SplitBy

/-!
# Joined texts

Joining the texts of a document goes through its nodes, and through the children of each with the
text that the next one would join. What comes out is said here without that order of steps: the
children of a node fall into runs of texts and runs of other nodes, and each run of texts becomes
one text, or none if the run says nothing.

## Main statements

* `Siblings.mergeRuns_eq_joinNodes`: going through siblings with an open text merges their runs.
* `Document.HasTree.normalize_joins_texts`: joining texts merges the runs below each node and does
  nothing else, and doing it again changes nothing.
-/

namespace HtmlMinify

namespace Siblings

variable {open? : Option (NodeId × Content)} {l run rest : List (NodeId × Content)}

/-! ## Runs -/

/-- A node that is no text. -/
def isOther (x : NodeId × Content) : Bool :=
  !x.2.isText

/-- The texts of a run as one, which has the place of the first that is not empty; none if all are
empty. -/
def mergeRun (run : List (NodeId × Content)) : List (NodeId × Content) :=
  ((run.find? (!·.2.value.isEmpty)).map fun x =>
    (x.1, { x.2 with value := String.join (run.map (·.2.value)) })).toList

/-- Siblings with each maximal run of texts merged. -/
def mergeRuns (l : List (NodeId × Content)) : List (NodeId × Content) :=
  (l.splitBy fun x y => x.2.isText == y.2.isText).flatMap fun run =>
    if run.all (·.2.isText) then mergeRun run else run

/-- The siblings that are gone once runs are merged. -/
def unlinked (l : List (NodeId × Content)) : List (NodeId × Content) :=
  l.filter fun x => !((mergeRuns l).map (·.1)).contains x.1

/-- Texts behind an open one join it, all of them. -/
theorem joinNodes_some_of_texts (h : ∀ x ∈ run, x.2.isText = true) (t : NodeId × Content) :
    joinNodes (some t) run =
      [(t.1, { t.2 with value := t.2.value ++ String.join (run.map (·.2.value)) })] := by
  induction run generalizing t with
  | nil => simp [joinNodes]
  | cons x run ih =>
    have hx := h x List.mem_cons_self
    have hrun : ∀ y ∈ run, y.2.isText = true := fun y hy => h y (List.mem_cons_of_mem x hy)
    rw [List.map_cons, String.join_cons]
    cases hvalue : x.2.value.isEmpty with
    | true =>
      have hempty : x.2.value = "" := by simpa using hvalue
      rw [joinNodes_cons_of_empty hx hvalue, ih hrun, hempty, String.empty_append]
    | false =>
      rw [joinNodes_cons_of_filled hx hvalue, ih hrun, joinNodeTo, ← String.append_assoc]

/-- A run of texts is joined into one. -/
theorem joinNodes_of_texts (h : ∀ x ∈ run, x.2.isText = true) :
    joinNodes none run = mergeRun run := by
  induction run with
  | nil => rfl
  | cons x run ih =>
    have hx := h x List.mem_cons_self
    have hrun : ∀ y ∈ run, y.2.isText = true := fun y hy => h y (List.mem_cons_of_mem x hy)
    rw [mergeRun, List.find?_cons, List.map_cons, String.join_cons]
    cases hvalue : x.2.value.isEmpty with
    | true =>
      have hempty : x.2.value = "" := by simpa using hvalue
      rw [joinNodes_cons_of_empty hx hvalue, ih hrun, hempty, String.empty_append]
      rfl
    | false =>
      rw [joinNodes_cons_of_filled hx hvalue, joinNodes_some_of_texts hrun, joinNodeTo]
      rfl

/-- A run of texts that ends before another node is joined by itself. -/
theorem joinNodes_append_of_texts (h : ∀ x ∈ run, x.2.isText = true)
    (hrest : ∀ x ∈ rest.head?, x.2.isText = false) :
    joinNodes open? (run ++ rest) = joinNodes open? run ++ joinNodes none rest := by
  induction run generalizing open? with
  | nil =>
    cases rest with
    | nil => simp [joinNodes]
    | cons x rest =>
      have hx := hrest x rfl
      rw [List.nil_append, joinNodes_cons_of_not_text hx, joinNodes_cons_of_not_text hx]
      rfl
  | cons x run ih =>
    have hx := h x List.mem_cons_self
    have hrun : ∀ y ∈ run, y.2.isText = true := fun y hy => h y (List.mem_cons_of_mem x hy)
    rw [List.cons_append]
    cases hvalue : x.2.value.isEmpty with
    | true =>
      rw [joinNodes_cons_of_empty hx hvalue, joinNodes_cons_of_empty hx hvalue, ih hrun]
    | false =>
      rw [joinNodes_cons_of_filled hx hvalue, joinNodes_cons_of_filled hx hvalue, ih hrun]

/-- Nodes that are no texts stay as they are. -/
theorem joinNodes_append_of_others (h : ∀ x ∈ run, x.2.isText = false) :
    joinNodes none (run ++ rest) = run ++ joinNodes none rest := by
  induction run with
  | nil => rfl
  | cons x run ih =>
    rw [List.cons_append, joinNodes_cons_of_not_text (h x List.mem_cons_self),
      ih fun y hy => h y (List.mem_cons_of_mem x hy)]
    rfl

/-- A run is of one kind. -/
theorem isText_eq_of_isChain {x : NodeId × Content}
    (h : (x :: l).IsChain fun x y => (x.2.isText == y.2.isText) = true) :
    ∀ y ∈ x :: l, y.2.isText = x.2.isText := by
  induction l generalizing x with
  | nil => simp
  | cons y l ih =>
    obtain ⟨hxy, hrest⟩ := List.isChain_cons_cons.mp h
    intro z hz
    rcases List.mem_cons.mp hz with rfl | hz
    · rfl
    · rw [ih hrest z hz]
      exact (beq_iff_eq.mp hxy).symm

/-- Runs, no two of one kind side by side, are joined run by run. -/
theorem joinNodes_flatten {runs : List (List (NodeId × Content))} (hne : [] ∉ runs)
    (hkind : ∀ run ∈ runs, run.IsChain fun x y => (x.2.isText == y.2.isText) = true)
    (hapart : runs.IsChain fun run next =>
      ∃ ha hb, ((run.getLast ha).2.isText == (next.head hb).2.isText) = false) :
    joinNodes none runs.flatten =
      runs.flatMap fun run => if run.all (·.2.isText) then mergeRun run else run := by
  induction runs with
  | nil => rfl
  | cons run runs ih =>
    rw [List.mem_cons, not_or] at hne
    obtain ⟨hnext, hruns⟩ := List.isChain_cons.mp hapart
    have hrest := ih hne.2 (fun run hrun => hkind run (List.mem_cons_of_mem _ hrun)) hruns
    cases run with
    | nil => exact absurd rfl hne.1
    | cons x run =>
      have hsame := isText_eq_of_isChain (hkind _ List.mem_cons_self)
      rw [List.flatten_cons, List.flatMap_cons, ← hrest]
      cases hx : x.2.isText with
      | false =>
        rw [joinNodes_append_of_others fun y hy => (hsame y hy).trans hx]
        simp [hx]
      | true =>
        have htexts : ∀ y ∈ x :: run, y.2.isText = true := fun y hy => (hsame y hy).trans hx
        have hall : (x :: run).all (·.2.isText) = true := List.all_eq_true.mpr htexts
        rw [joinNodes_append_of_texts htexts, joinNodes_of_texts htexts, if_pos hall]
        -- What follows the run is the head of the next one, which is of the other kind.
        intro y hy
        cases runs with
        | nil => cases hy
        | cons next runs =>
          obtain ⟨ha, hb, hdiffer⟩ := hnext next rfl
          obtain ⟨z, next, rfl⟩ := List.exists_cons_of_ne_nil hb
          cases hy
          rw [htexts _ (List.getLast_mem ha)] at hdiffer
          simpa using hdiffer

/-- **Going through siblings with an open text merges their runs.** -/
theorem mergeRuns_eq_joinNodes (l : List (NodeId × Content)) :
    mergeRuns l = joinNodes none l := by
  have hflatten := joinNodes_flatten (l.nil_notMem_splitBy _)
    (fun _ => List.isChain_of_mem_splitBy) (List.isChain_getLast_head_splitBy
      (fun x y : NodeId × Content => x.2.isText == y.2.isText) l)
  rw [List.flatten_splitBy] at hflatten
  exact hflatten.symm

/-! ## What stays and what goes -/

/-- Joining texts leaves all nodes that are none. -/
theorem filter_isOther_joinNodes (hopen : ∀ t ∈ open?, t.2.isText = true)
    (l : List (NodeId × Content)) : (joinNodes open? l).filter isOther = l.filter isOther := by
  have htoList : open?.toList.filter isOther = [] := by
    cases open? with
    | none => rfl
    | some t => simp [isOther, hopen t rfl]
  induction l generalizing open? with
  | nil => exact htoList
  | cons x l ih =>
    cases hx : x.2.isText with
    | false =>
      rw [joinNodes_cons_of_not_text hx, List.filter_append, htoList, List.filter_cons,
        List.filter_cons, ih (by simp) rfl]
      rfl
    | true =>
      rw [List.filter_cons_of_neg (by simp [isOther, hx])]
      cases hvalue : x.2.value.isEmpty with
      | true => rw [joinNodes_cons_of_empty hx hvalue, ih hopen htoList]
      | false =>
        rw [joinNodes_cons_of_filled hx hvalue]
        have htext := isText_joinNodeTo hopen hx
        refine ih (fun t ht => ?_) ?_
        · cases ht
          exact htext
        · simp [isOther, htext]

/-- Nodes that are no texts stay, in order. -/
theorem filter_isOther_mergeRuns (l : List (NodeId × Content)) :
    (mergeRuns l).filter isOther = l.filter isOther := by
  rw [mergeRuns_eq_joinNodes]
  exact filter_isOther_joinNodes (by simp) l

/-- What is unlinked are the siblings that are left over. -/
theorem mem_unlinked_iff {x : NodeId × Content} :
    x ∈ unlinked l ↔ x ∈ l ∧ x.1 ∉ (mergeRuns l).map (·.1) := by
  rw [unlinked, List.mem_filter, Bool.not_eq_true', ← Bool.not_eq_true, List.contains_iff_mem]

/-- What goes is a text. -/
theorem isText_of_mem_unlinked {x : NodeId × Content} (h : x ∈ unlinked l) :
    x.2.isText = true := by
  obtain ⟨hmem, hgone⟩ := mem_unlinked_iff.mp h
  by_contra hx
  have hother : x ∈ l.filter isOther := List.mem_filter.mpr ⟨hmem, by simpa [isOther] using hx⟩
  rw [← filter_isOther_mergeRuns] at hother
  exact hgone (List.mem_map_of_mem (List.mem_of_mem_filter hother))

/-- No sibling is counted twice: each is unlinked or left. -/
theorem length_unlinked (h : (l.map (·.1)).Nodup) :
    (unlinked l).length + (mergeRuns l).length = l.length := by
  have hsub : ((mergeRuns l).map (·.1)).Sublist (l.map (·.1)) := by
    rw [mergeRuns_eq_joinNodes]
    exact (@thins_joinNodes false l).sublist_map
  have hperm : ((l.map (·.1)).filter ((mergeRuns l).map (·.1)).contains).Perm
      ((mergeRuns l).map (·.1)) := by
    rw [List.perm_ext_iff_of_nodup (h.filter _) (h.sublist hsub)]
    intro id
    rw [List.mem_filter, List.contains_iff_mem]
    exact ⟨fun hid => hid.2, fun hid => ⟨hsub.subset hid, hid⟩⟩
  have hlength := hperm.length_eq
  rw [List.filter_map, List.length_map, List.length_map] at hlength
  have hsplit := List.length_eq_length_filter_add (l := l)
    (((mergeRuns l).map (·.1)).contains ∘ (·.1))
  rw [hlength] at hsplit
  rw [hsplit, Nat.add_comm]
  rfl

end Siblings

/-! ## Trees -/

/-- Thinned siblings have no more nodes that are no texts than before. -/
theorem Thins.length_filter_isOther_le {sorts : Bool} {old new : List (NodeId × Content)}
    (h : Thins sorts old new) :
    (new.filter Siblings.isOther).length ≤ (old.filter Siblings.isOther).length := by
  induction h with
  | nil => exact Nat.le_refl _
  | drop _ _ ih => exact ih.trans ((List.sublist_cons_self _ _).filter _).length_le
  | @keep old new id c c' hedited _ ih =>
    have hsame : Siblings.isOther (id, c') = Siblings.isOther (id, c) :=
      congrArg not hedited.isText_eq
    rw [List.filter_cons, List.filter_cons, hsame]
    split
    · exact Nat.succ_le_succ ih
    · exact ih

namespace Forest

variable {free : Bool} {f f' : NumberedForest}

/-- No text has children. -/
def ChildlessTexts (f : NumberedForest) : Prop :=
  ∀ fam ∈ f.families true, fam.content.isText = true → fam.children = []

/-- **Nodes that are no texts stay in a tree with joined texts**, in document order, if no text has
children that go with it. -/
theorem Becomes.filter_toList (h : f.Becomes false Edit.LeavesJoined free f')
    (htexts : ∀ fam ∈ f.families free, fam.content.isText = true → fam.children = [])
    (hroots : f'.roots.filter Siblings.isOther = f.roots.filter Siblings.isOther) :
    f'.toList.filter Siblings.isOther = f.toList.filter Siblings.isOther := by
  induction h with
  | nil => rfl
  | @drop free id c children siblings after _ hafter ih =>
    have hsiblings := fun fam hfam => htexts fam (mem_of_mem_beside hfam)
    cases hc : c.isText with
    | true =>
      have hempty : children.roots = [] := htexts _ List.mem_cons_self hc
      have hnone : children = Forest.nil := by
        rw [← ids_eq_nil_iff, ids, hempty, List.map_nil]
      have hnot : ¬Siblings.isOther (id, c) = true := by simp [Siblings.isOther, hc]
      rw [roots, List.filter_cons_of_neg hnot] at hroots
      rw [toList, List.filter_cons_of_neg hnot, hnone, ih hsiblings hroots]
      rfl
    | false =>
      -- A node that is no text would be missed among the roots.
      have hother : Siblings.isOther (id, c) = true := by simp [Siblings.isOther, hc]
      have hle := hafter.thins_roots.length_filter_isOther_le
      rw [hroots, roots, List.filter_cons_of_pos hother] at hle
      exact absurd hle (Nat.not_succ_le_self _)
  | @keep free id c c' children children' siblings siblings' hedited hleft hbelow _ ihc ihs =>
    have hchildren := fun fam hfam => htexts fam (mem_of_mem_below hfam)
    have hsiblings := fun fam hfam => htexts fam (mem_of_mem_beside hfam)
    rw [roots, roots] at hroots
    rw [toList, toList]
    have hsame : children'.roots.filter Siblings.isOther =
        children.roots.filter Siblings.isOther := by
      rw [hleft]
      exact Siblings.filter_isOther_joinNodes (by simp) _
    have hbelow' := ihc hchildren hsame
    cases hc : c.isText with
    | true =>
      have hnot : ¬Siblings.isOther (id, c) = true := by simp [Siblings.isOther, hc]
      have hnot' : ¬Siblings.isOther (id, c') = true := by
        simp [Siblings.isOther, hedited.isText_eq, hc]
      rw [List.filter_cons_of_neg hnot, List.filter_cons_of_neg hnot'] at hroots
      rw [List.filter_cons_of_neg hnot, List.filter_cons_of_neg hnot', List.filter_append,
        List.filter_append, hbelow', ihs hsiblings hroots]
    | false =>
      have hother : Siblings.isOther (id, c) = true := by simp [Siblings.isOther, hc]
      have hother' : Siblings.isOther (id, c') = true := by
        simp [Siblings.isOther, hedited.isText_eq, hc]
      rw [List.filter_cons_of_pos hother, List.filter_cons_of_pos hother', List.cons.injEq]
        at hroots
      rw [List.filter_cons_of_pos hother, List.filter_cons_of_pos hother', List.filter_append,
        List.filter_append, hroots.1, hbelow', ihs hsiblings hroots.2]

end Forest

namespace Document

open Edit

variable {doc doc' : Document} {above : Option NodeId} {f f' : NumberedForest} {n : Nat}

/-- The texts of a document are joined: below each node every run of texts is merged, the texts that
went say nothing and have no parent, and they are counted. Nodes that are no texts stay as they are
and where they are, and nodes that are not reached are not touched. -/
structure JoinsTo (doc : Document) (f : NumberedForest) (n : Nat) (doc' : Document)
    (f' : NumberedForest) : Prop where
  size_eq : doc'.size = doc.size
  root_eq : doc'.root = doc.root
  unreached : ∀ id ∉ f.allIds, doc'.nodes[id]? = doc.nodes[id]?
  roots_eq : f'.roots = f.roots
  keeps : ∀ fam ∈ f.families true,
    doc'.Keeps { fam with children := Siblings.mergeRuns fam.children }
  others_among : ∀ fam ∈ f.families true,
    (Siblings.mergeRuns fam.children).filter Siblings.isOther =
      fam.children.filter Siblings.isOther
  others : f'.toList.filter Siblings.isOther = f.toList.filter Siblings.isOther
  unlinked : ∀ fam ∈ f.families true, ∀ child ∈ Siblings.unlinked fam.children,
    child.2.isText = true ∧ doc'.entry child.1 = some ({ child.2 with value := "" }, none)
  count_eq : n = ((f.families true).flatMap (Siblings.unlinked ·.children)).length

/-- **The count of joined texts** is that of the siblings unlinked, over all families. -/
theorem foldr_countsGone {fams : List Family} {counts : List Nat}
    (h : List.Forall₂ CountsGone fams counts) (hnodup : ∀ fam ∈ fams, fam.members.Nodup) :
    counts.foldr (· + ·) 0 = (fams.flatMap (Siblings.unlinked ·.children)).length := by
  induction h with
  | nil => rfl
  | @cons fam n fams counts hcounts _ ih =>
    have hlength := Siblings.length_unlinked (hnodup fam List.mem_cons_self)
    rw [CountsGone, ← Siblings.mergeRuns_eq_joinNodes, ← hlength, Nat.add_right_cancel_iff]
      at hcounts
    rw [List.foldr_cons, List.flatMap_cons, List.length_append, hcounts,
      ih fun fam hfam => hnodup fam (List.mem_cons_of_mem _ hfam)]

/-- **Joining texts merges each run of texts and does nothing else.** It succeeds on a document
whose reachable part is a tree without texts that have children, leaves such a tree, gives the number
of texts that went, and has nothing to do the next time. -/
theorem HasTree.normalize_joins_texts (h : doc.HasTree above f) (htexts : f.ChildlessTexts) :
    ∃ n doc' f', normalize.apply doc = (.ok n, doc') ∧ doc.JoinsTo f n doc' f' ∧
      doc'.HasTree above f' ∧ f'.ChildlessTexts ∧ normalize.apply doc' = (.ok 0, doc') := by
  obtain ⟨counts, doc', f', hrun, hcounts, hjoined, hdiffers, htree, hroots, hbecomes⟩ :=
    h.exists_apply_normalize
  refine ⟨_, doc', f', hrun, ⟨hdiffers.size_eq, hdiffers.root_eq, ?_, hroots, ?_, ?_, ?_, ?_, ?_⟩,
    htree, ?_, ?_⟩
  · exact fun id hid => hdiffers.getElem?_eq hid hid
  · intro fam hfam
    rw [Siblings.mergeRuns_eq_joinNodes]
    exact (hjoined fam hfam).keeps
  · exact fun fam _ => Siblings.filter_isOther_mergeRuns fam.children
  · exact hbecomes.filter_toList htexts (by rw [hroots])
  · intro fam hfam child hchild
    refine ⟨Siblings.isText_of_mem_unlinked hchild, ?_⟩
    obtain ⟨hmem, hgone⟩ := Siblings.mem_unlinked_iff.mp hchild
    rw [Siblings.mergeRuns_eq_joinNodes] at hgone
    exact (hjoined fam hfam).entry_gone child hmem hgone
  · exact foldr_countsGone hcounts fun fam hfam =>
      (List.nodup_flatMap.mp h.nodup_members).1 fam hfam
  · intro fam' hfam' htext
    obtain ⟨fam, hfam, -, hedited, -, hleft⟩ := hbecomes.exists_family fam' hfam'
    rw [hleft, htexts fam hfam (hedited.isText_eq.symm.trans htext)]
    rfl
  · refine htree.apply_normalize_of_joined fun fam' hfam' => ?_
    obtain ⟨fam, -, -, -, -, hleft⟩ := hbecomes.exists_family fam' hfam'
    rw [Family.contents, hleft, Siblings.map_snd_joinNodes]
    exact Siblings.joined_join (by simp) _

/-- A paragraph after a run of three texts, one of them empty, and before an empty text. The
paragraph holds an empty text, and a comment is not reached. -/
def sampleTexts : Document where
  root := some 0
  nodes := #[
    { toContent := .document, children := [1, 2, 3, 4, 6] },
    { toContent := .leaf .text "a", parent := some 0 },
    { toContent := .leaf .text "", parent := some 0 },
    { toContent := .leaf .text "b", parent := some 0 },
    { toContent := .element "p" {} false, parent := some 0, children := [5] },
    { toContent := .leaf .text "", parent := some 4 },
    { toContent := .leaf .text "", parent := some 0 },
    { toContent := .leaf .comment "c" }]

/-- What is below the root. -/
def sampleBelow : NumberedForest :=
  .node (1, .leaf .text "a") .nil
    (.node (2, .leaf .text "") .nil
      (.node (3, .leaf .text "b") .nil
        (.node (4, .element "p" {} false) (.node (5, .leaf .text "") .nil .nil)
          (.node (6, .leaf .text "") .nil .nil))))

/-- Of five texts one is left. -/
theorem HasTree.normalize_joins_texts_sample :
    sampleTexts.HasTree none (.node (0, .document) sampleBelow .nil) ∧
      Forest.ChildlessTexts (.node (0, .document) sampleBelow .nil) ∧
      ∃ doc' f', normalize.apply sampleTexts = (.ok 4, doc') ∧ doc'.HasTree none f' ∧
        doc'.childIds 0 = some [1, 4] ∧
        doc'.entry 1 = some (.leaf .text "ab", some 0) ∧
        doc'.entry 3 = some (.leaf .text "", none) ∧
        normalize.apply doc' = (.ok 0, doc') := by
  have htree : sampleTexts.HasTree none (.node (0, .document) sampleBelow .nil) :=
    ⟨rfl, by simp [sampleTexts, sampleBelow, Shows], by decide⟩
  have htexts : Forest.ChildlessTexts (.node (0, .document) sampleBelow .nil) := by
    unfold Forest.ChildlessTexts
    decide
  refine ⟨htree, htexts, ?_⟩
  obtain ⟨n, doc', f', hrun, hjoins, htree', -, hagain⟩ := htree.normalize_joins_texts htexts
  obtain rfl : n = 4 := hjoins.count_eq.trans (by decide +kernel)
  have hmerged : Siblings.mergeRuns sampleBelow.roots =
      [(1, .leaf .text "ab"), (4, .element "p" {} false)] := by decide +kernel
  have hkeeps := hjoins.keeps _ List.mem_cons_self
  rw [hmerged] at hkeeps
  refine ⟨doc', f', hrun, htree', hkeeps.childIds, hkeeps.entry (1, .leaf .text "ab") (by simp),
    ?_, hagain⟩
  exact (hjoins.unlinked _ List.mem_cons_self (3, .leaf .text "b") (by decide +kernel)).2

end Document

end HtmlMinify
