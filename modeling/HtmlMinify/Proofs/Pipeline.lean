import HtmlMinify.Minify
import HtmlMinify.Proofs.Built
import HtmlMinify.Proofs.DepthLimit
import HtmlMinify.Proofs.PassEffects
import HtmlMinify.Proofs.RoundTrip
import HtmlMinify.Proofs.RuleOrder

/-!
# Runs of passes

A pass does one of six kinds of work on a tree (`Pass.Work`), and texts are joined after it. A tree
stays tidy on the way: texts are joined, no attribute key occurs twice, and nodes that take no
children have none. So no pass of a run can fail, nor the check after it, and what a run does to a
tree is a sequence of steps (`Document.Leads`).

## Main statements

* `Document.Stands.exists_apply_work`: every kind of work succeeds, and what it leaves of a tree.
* `Document.Stands.exists_succeeds`: so does every run of passes.
* `Document.Leads.preserves`: what every step does, a run does.
* `Document.exists_stands_of_parse`: a page that was read is a tidy tree.
* `Settings.fellBack_iff_depthExceeded`: minifying fails only on pages that nest too deep.
-/

namespace HtmlMinify

namespace AttributeRule

/-- Attributes with the same names are pared down if values differ only in class names and
addresses. -/
theorem pared_of_names_eq {sorts : Bool} {as as' : Attributes} (hnames : as'.names = as.names)
    (hcomes : ∀ a' ∈ as'.toList, ∃ a ∈ as.toList, a'.name = a.name ∧
      (a'.value = a.value ∨ a.is "class" = true ∨ Tag.isUrlAttribute a.name = true)) :
    as.Pared sorts as' :=
  ⟨by rw [hnames], fun _ => by rw [hnames], hcomes⟩

/-- Sorting the classes of an element pares its attributes. -/
theorem pared_modifyFirst {sorts : Bool} (items : List Attribute) :
    (Attributes.mk items).Pared sorts ⟨modifyFirst (·.is "class") sortClass items⟩ := by
  have hspec : (modifyFirst (·.is "class") sortClass items).map (·.name) = items.map (·.name) ∧
      ∀ a' ∈ modifyFirst (·.is "class") sortClass items, ∃ a ∈ items, a'.name = a.name ∧
        (a'.value = a.value ∨ a.is "class" = true) := by
    induction items with
    | nil => simp [modifyFirst]
    | cons a items ih =>
      rw [modifyFirst]
      split
      · next hclass =>
        refine ⟨by simp [name_sortClass], fun a' ha' => ?_⟩
        rcases List.mem_cons.mp ha' with rfl | ha'
        · exact ⟨a, by simp, name_sortClass a, .inr hclass⟩
        · exact ⟨a', by simp [ha'], rfl, .inl rfl⟩
      · refine ⟨by simp [ih.1], fun a' ha' => ?_⟩
        rcases List.mem_cons.mp ha' with rfl | ha'
        · exact ⟨a', by simp, rfl, .inl rfl⟩
        · obtain ⟨b, hb, hrevised⟩ := ih.2 a' ha'
          exact ⟨b, by simp [hb], hrevised⟩
  refine pared_of_names_eq hspec.1 fun a' ha' => ?_
  obtain ⟨a, ha, hname, hvalue⟩ := hspec.2 a' ha'
  exact ⟨a, ha, hname, hvalue.imp_right .inl⟩

/-- Shortening the addresses of an element pares its attributes. -/
theorem pared_replaceAddresses {sorts : Bool} (change? : String → Option String)
    (as : Attributes) : as.Pared sorts (Links.replaceAddresses change? as).1 := by
  have hname : ∀ a, (Links.readdressed change? a).name = a.name := by
    intro a
    rw [Links.readdressed]
    cases Links.newAddress? change? a <;> rfl
  rw [Links.replaceAddresses_eq]
  refine pared_of_names_eq ?_ fun a' ha' => ?_
  · rw [Attributes.names, Attributes.names, List.map_map]
    exact List.map_congr_left fun a _ => hname a
  · obtain ⟨a, ha, rfl⟩ := List.mem_map.mp ha'
    refine ⟨a, ha, hname a, ?_⟩
    rw [Links.readdressed, Links.newAddress?]
    split
    · next hurl => exact .inr (.inr hurl)
    · exact .inl rfl

namespace Rule

/-- The rule may put attributes in another order. -/
def sorts : Rule → Bool
  | orderNames => true
  | _ => false

/-- **Every rule pares attributes.** -/
theorem pares_run (rule : Rule) : Document.Pares rule.sorts rule.run := by
  intro c
  cases rule with
  | readdress change? shortens => exact pared_replaceAddresses change? c.attributes
  | dropOne d => exact .of_sublist (d.sublist_rule c)
  | dropAll drops fades => exact .of_sublist (sublist_dropEach c _ drops)
  | dropEmpty => exact .of_sublist List.filter_sublist
  | orderClasses => exact pared_modifyFirst c.attributes.toList
  | orderNames => exact .of_perm (perm_sortByName c)

end Rule

end AttributeRule

/-! ## Kinds of work -/

namespace Pass

/-- What passes do to a tree. -/
inductive Work where
  | comments
  | collapse
  | trim
  | blanks
  | rule (rule : AttributeRule.Rule)
  | nothing

namespace Work

/-- The change of a document. -/
def edit : Work → Edit Nat
  | comments => Comments.remove
  | collapse => Whitespace.collapseAll
  | trim => Whitespace.trimAll
  | blanks => Whitespace.removeBlank
  | rule r => onElements r.run
  | nothing => pure 0

/-- What the work leaves of a family. -/
def left : Work → Family → List Content
  | comments => Document.uncommented
  | collapse => Document.collapsed
  | trim => Document.trimmed
  | blanks => Document.unblanked
  | rule r => Document.ruledIn r.run
  | nothing => Family.contents

/-- The work may put attributes in another order. -/
def sorts : Work → Bool
  | rule r => r.sorts
  | _ => false

end Work

/-- The work of a pass. -/
def work (read? : String → Option Url) (ctx : Context) : Pass → Work
  | removeComments => .comments
  | collapseWhitespace => .collapse
  | trimAroundTags => .trim
  | removeBlankTexts => .blanks
  | pass =>
    match pass.rule? read? ctx with
    | some rule => .rule rule
    | none => .nothing

/-- A pass with a rule works by this rule. -/
theorem work_of_rule? {read? : String → Option Url} {ctx : Context} {pass : Pass}
    {rule : AttributeRule.Rule} (h : pass.rule? read? ctx = some rule) :
    pass.work read? ctx = .rule rule := by
  cases pass <;> first | (cases h; done) | simp only [work, h]

/-- A pass does its work, and nothing else. -/
theorem apply_eq_edit (read? : String → Option Url) (ctx : Context) (pass : Pass) :
    pass.apply read? ctx = (pass.work read? ctx).edit := by
  cases hrule : pass.rule? read? ctx with
  | some rule => rw [apply_eq_onElements hrule, work_of_rule? hrule, Work.edit]
  | none =>
    cases pass with
    | relativeLinks =>
      rw [rule?] at hrule
      split at hrule
      · next hdomains =>
        have hnone : relativeLinks.work read? ctx = .nothing := by
          simp only [work, rule?, if_pos hdomains]
        rw [apply, if_pos hdomains, hnone, Work.edit]
      · cases hrule
    | documentPasses | attributePasses | keepExternalScheme | omitQuotes | omitEndTags
    | removeComments | collapseWhitespace | trimAroundTags | removeBlankTexts => rfl
    | _ => cases hrule

end Pass

namespace Document

open Edit Pass

variable {doc : Document} {root : NodeId} {f f' : NumberedForest}

/-- **Every kind of work succeeds on a tree.** -/
theorem Stands.exists_apply_work (h : doc.Stands root f) (w : Work) :
    ∃ n doc' f', w.edit.apply doc = (.ok n, doc') ∧ doc'.Stands root f' ∧
      Turns w.sorts (Family.Leaves w.left) root f f' := by
  cases w with
  | comments => exact h.exists_apply_removeComments
  | collapse => exact h.exists_apply_collapseAll
  | trim => exact h.exists_apply_trimAll
  | blanks => exact h.exists_apply_removeBlank
  | rule r => exact h.exists_apply_onElements r.pares_run
  | nothing => exact ⟨0, doc, f, rfl, h, .refl fun _ _ => rfl⟩

end Document

/-! ## Tidy trees -/

/-- No attribute key occurs twice, a node that takes no children has none, and no child is a
document. -/
structure Family.Sound (fam : Family) : Prop where
  distinct : fam.content.isElement = true → fam.content.attributes.Distinct
  childless : fam.content.isLeaf = true → fam.children = []
  noDocument : ∀ child ∈ fam.children, child.2.kind ≠ .document

/-- In addition the texts of the children are joined. -/
structure Family.Tidy (fam : Family) : Prop extends fam.Sound where
  joined : Siblings.Joined fam.contents

/-- A node that cannot have children has none. -/
theorem Forest.eq_nil_of_sound {id : NodeId} {c : Content} {free : Bool}
    {children : NumberedForest} (h : Family.Sound ⟨id, c, free, children.roots⟩)
    (hleaf : c.isLeaf = true) : children = .nil := by
  have hroots : children.roots = [] := h.childless hleaf
  rw [← ids_eq_nil_iff, ids, hroots]
  rfl

/-- **Each node that is no text or comment keeps a family**, if texts and comments have no children:
the converse of `Forest.Becomes.exists_family`. -/
theorem Forest.Becomes.exists_family_of_mem {sorts free : Bool}
    {Left : Family → List (NodeId × Content) → Prop} {f f' : NumberedForest}
    (h : f.Becomes sorts Left free f') (hsound : ∀ fam ∈ f.families free, fam.Sound)
    {fam : Family} (hfam : fam ∈ f.families free) (hstays : fam.content.mayGo = false) :
    ∃ fam' ∈ f'.families free, fam'.id = fam.id ∧ fam.content.Edited sorts fam'.content ∧
      Thins sorts fam.children fam'.children ∧ Left fam fam'.children := by
  induction h with
  | nil => cases hfam
  | @drop free id c children siblings after hgoes _ ih =>
    rw [families] at hsound hfam
    rw [List.mem_cons, List.mem_append] at hfam
    rcases hfam with rfl | hfam | hfam
    · rw [hgoes] at hstays
      cases hstays
    · rw [eq_nil_of_sound (hsound _ List.mem_cons_self) (Content.isLeaf_of_mayGo hgoes)] at hfam
      cases hfam
    · exact ih (fun other hother => hsound other (mem_of_mem_beside hother)) hfam
  | keep hedited hhere hbelow _ ihc ihs =>
    rw [families] at hsound hfam
    rw [families, hedited.preservesText_eq]
    rw [List.mem_cons, List.mem_append] at hfam
    rcases hfam with rfl | hfam | hfam
    · exact ⟨_, List.mem_cons_self, rfl, hedited, hbelow.thins_roots, hhere⟩
    · obtain ⟨fam', hfam', hkept⟩ :=
        ihc (fun other hother => hsound other (mem_of_mem_below hother)) hfam
      exact ⟨fam', mem_of_mem_below hfam', hkept⟩
    · obtain ⟨fam', hfam', hkept⟩ :=
        ihs (fun other hother => hsound other (mem_of_mem_beside hother)) hfam
      exact ⟨fam', mem_of_mem_beside hfam', hkept⟩

namespace Document

open Edit Pass

variable {doc : Document} {root : NodeId} {f f' : NumberedForest}

/-- All families are sound. -/
def Sound (root : NodeId) (f : NumberedForest) : Prop :=
  ∀ fam ∈ familiesOf root f, fam.Sound

/-- All families are tidy. -/
def Tidy (root : NodeId) (f : NumberedForest) : Prop :=
  ∀ fam ∈ familiesOf root f, fam.Tidy

/-- Tidy forests are sound. -/
theorem Tidy.sound (h : Tidy root f) : Sound root f :=
  fun fam hfam => (h fam hfam).toSound

/-- Pared attributes are distinct if they were so before. -/
theorem distinct_of_pared {sorts : Bool} {as as' : Attributes} (h : as.Distinct)
    (hpared : as.Pared sorts as') : as'.Distinct := by
  have hkeys : ∀ as : Attributes, as.toList.map (·.key) = as.names.map Text.lower := by
    intro as
    rw [Attributes.names, List.map_map]
    rfl
  obtain ⟨names, hperm, hsublist⟩ := hpared.names_subperm
  rw [Attributes.Distinct, hkeys] at h ⊢
  exact ((hperm.map Text.lower).nodup_iff).mp (h.sublist (hsublist.map Text.lower))

/-- What is left of a sound tree is sound. -/
theorem Sound.turns {sorts : Bool} {Left : Family → List (NodeId × Content) → Prop}
    (h : Sound root f) (hturns : Turns sorts Left root f f') : Sound root f' := by
  intro fam' hfam'
  obtain ⟨fam, hfam, -, hedited, hthins, -⟩ := hturns.exists_family fam' hfam'
  refine ⟨fun helement => ?_, fun hleaf => ?_, fun child' hchild' => ?_⟩
  · rw [hedited.isElement_eq] at helement
    exact distinct_of_pared ((h fam hfam).distinct helement) hedited.attributes
  · rw [hedited.isLeaf_eq] at hleaf
    rw [(h fam hfam).childless hleaf] at hthins
    exact List.map_eq_nil_iff.mp (List.sublist_nil.mp hthins.sublist_map)
  · obtain ⟨child, hchild, hedited⟩ := hthins.exists_of_mem hchild'
    rw [hedited.kind]
    exact (h fam hfam).noDocument child hchild

/-- The elements below a sound node have distinct keys. -/
theorem Sound.distinct_of_mem (h : Sound root f) {fam : Family} (hfam : fam ∈ familiesOf root f)
    {c : Content} (hc : c ∈ fam.contents) (helement : c.isElement = true) :
    c.attributes.Distinct := by
  obtain ⟨child, hchild, rfl⟩ := List.mem_map.mp hc
  obtain ⟨own, hown, -, hcontent⟩ := Forest.exists_family_of_mem_children hfam hchild
  rw [← hcontent] at helement ⊢
  exact (h own hown).distinct helement

/-- A forest is valid if its families are sound. -/
theorem valid_of_families {free : Bool} (h : ∀ fam ∈ f.families free, fam.Sound) :
    f.contents.Valid := by
  induction f generalizing free with
  | nil => trivial
  | node label children siblings ihc ihs =>
    obtain ⟨id, c⟩ := label
    rw [Forest.families] at h
    have hhere := h _ List.mem_cons_self
    have hbelow := ihc fun fam hfam =>
      h fam (Forest.mem_of_mem_below hfam)
    have hbeside := ihs fun fam hfam =>
      h fam (Forest.mem_of_mem_beside hfam)
    refine ⟨hhere.distinct, fun hvoid => ?_, hbelow, hbeside⟩
    rw [Forest.eq_nil_of_sound hhere (Content.isLeaf_of_isVoid hvoid)]
    rfl

/-- A sound tree passes its check. -/
theorem Stands.validate (h : doc.Stands root f) (hsound : Sound root f) :
    doc.validate = .ok () :=
  validate_of_shows h.root_eq h.shows h.levels_le
    (valid_of_families (f := .node (root, .document) f .nil) hsound)

/-- A tree can be written. -/
theorem Stands.serialize (h : doc.Stands root f) (options : WriteOptions) :
    doc.serialize options = .ok (String.ofList
      (f.contents.markup options (Doctype.pageQuirks f.contents.roots) [] .endOfPage)) :=
  serialize_of_shows h.root_eq h.shows rfl h.levels_le options

/-! ## Steps and runs -/

/-- What one kind of work, and joining texts after it, makes of a tree. -/
structure Step (w : Work) (root : NodeId) (f f' : NumberedForest) : Prop where
  before : Tidy root f
  after : Tidy root f'
  turns : Turns w.sorts (Family.Leaves fun fam => Siblings.join none (w.left fam)) root f f'

/-- What one kind of work, and joining texts after it, makes of a family. -/
structure Makes (w : Work) (fam fam' : Family) : Prop where
  free_eq : fam'.free = fam.free
  alike : fam.content.Alike fam'.content
  contents_eq : fam'.contents = Siblings.join none (w.left fam)

/-- Each family after a step is made of one before it. -/
theorem Step.exists_family {w : Work} (h : Step w root f f') {fam' : Family}
    (hfam' : fam' ∈ familiesOf root f') : ∃ fam ∈ familiesOf root f, Makes w fam fam' := by
  obtain ⟨fam, hfam, hfree, hedited, -, hleft⟩ := h.turns.exists_family fam' hfam'
  exact ⟨fam, hfam, hfree, hedited.toAlike, hleft⟩

/-- A sequence of steps. -/
inductive Leads (root : NodeId) : List Work → NumberedForest → NumberedForest → Prop where
  | nil (f : NumberedForest) : Leads root [] f f
  | cons {w : Work} {ws : List Work} {f f' f'' : NumberedForest} : Step w root f f' →
    Leads root ws f' f'' → Leads root (w :: ws) f f''

/-- **What every step does, a run does.** -/
theorem Leads.preserves {R : NumberedForest → NumberedForest → Prop} (hrefl : ∀ f, R f f)
    (htrans : ∀ {f f' f''}, R f f' → R f' f'' → R f f'') {ws : List Work}
    (hstep : ∀ w ∈ ws, ∀ {f f'}, Step w root f f' → R f f') (h : Leads root ws f f') :
    R f f' := by
  induction h with
  | nil f => exact hrefl f
  | cons hhere _ ih =>
    exact htrans (hstep _ List.mem_cons_self hhere)
      (ih fun w hw => hstep w (List.mem_cons_of_mem _ hw))

/-- **Every step goes through on a tidy document**, and leaves one that stands. -/
theorem Stands.exists_step (h : doc.Stands root f) (htidy : Tidy root f) (w : Work) :
    ∃ n doc₁ m doc₂ f', w.edit.apply doc = (.ok n, doc₁) ∧
      normalize.apply doc₁ = (.ok m, doc₂) ∧ doc₂.Stands root f' ∧ Step w root f f' := by
  obtain ⟨n, doc₁, between, hrun, hstands, hturns⟩ := h.exists_apply_work w
  obtain ⟨m, doc₂, f', hrun', hstands', hjoins⟩ := hstands.exists_apply_normalize
  have hboth : Turns w.sorts (Family.Leaves fun fam => Siblings.join none (w.left fam)) root f f' :=
    hturns.followed_by hjoins
  refine ⟨n, doc₁, m, doc₂, f', hrun, hrun', hstands', htidy, fun fam' hfam' => ?_, hboth⟩
  obtain ⟨fam, -, -, -, -, hleft⟩ := hboth.exists_family fam' hfam'
  refine ⟨htidy.sound.turns hboth fam' hfam', ?_⟩
  rw [Family.contents, hleft]
  exact Siblings.joined_join (by simp) _

end Document

namespace Run

/-- A run on a document: the result, and the document as the run leaves it. -/
def apply {α : Type} (run : Run α) (doc : Document) : Except MinifyError α × Document :=
  (ExceptT.run run).run doc

theorem apply_bind_of_ok {α β : Type} {run : Run α} {next : α → Run β} {doc doc' : Document}
    {a : α} (h : run.apply doc = (.ok a, doc')) :
    (run >>= next).apply doc = (next a).apply doc' := by
  rw [apply] at h
  rw [apply, ExceptT.run_bind, StateT.run_bind, h]
  rfl

theorem apply_edit_of_ok {α : Type} {change : Edit α} {doc doc' : Document} {a : α}
    (h : change.apply doc = (.ok a, doc')) : (edit change).apply doc = (.ok a, doc') := by
  have hget : (get : Run Document).apply doc = (.ok doc, doc) := rfl
  rw [edit, apply_bind_of_ok hget, h]
  rfl

/-- A check that succeeds changes nothing. -/
theorem apply_check_of_ok {pass : Pass} {doc : Document} (h : doc.validate = .ok ()) :
    (check pass).apply doc = (.ok (), doc) := by
  have hget : (get : Run Document).apply doc = (.ok doc, doc) := rfl
  rw [check, apply_bind_of_ok hget, h]
  rfl

/-- Every step of a run succeeds; for each pass it is counted what it changed, and how many texts
were joined after it. -/
inductive Succeeds (read? : String → Option Url) (ctx : Context) :
    List Pass → List (Nat × Nat) → Document → Document → Prop where
  | nil (doc : Document) : Succeeds read? ctx [] [] doc doc
  | cons {pass : Pass} {rest : List Pass} {n m : Nat} {counts : List (Nat × Nat)}
    {doc doc₁ doc₂ doc' : Document} : (pass.apply read? ctx).apply doc = (.ok n, doc₁) →
    Edit.normalize.apply doc₁ = (.ok m, doc₂) → doc₂.validate = .ok () →
    Succeeds read? ctx rest counts doc₂ doc' →
    Succeeds read? ctx (pass :: rest) ((n, m) :: counts) doc doc'

/-- A run of which every step succeeds does. -/
theorem Succeeds.apply_passes {read? : String → Option Url} {ctx : Context} {passes : List Pass}
    {counts : List (Nat × Nat)} {doc doc' : Document}
    (h : Succeeds read? ctx passes counts doc doc') (options : WriteOptions) :
    (Run.passes read? ctx options passes).apply doc =
      (.ok (passes.foldl (fun options pass => pass.adjust options) options), doc') := by
  induction h generalizing options with
  | nil doc => rfl
  | cons hpass hjoin hcheck _ ih =>
    rw [Run.passes, apply_bind_of_ok (apply_edit_of_ok hpass),
      apply_bind_of_ok (apply_edit_of_ok hjoin), apply_bind_of_ok (apply_check_of_ok hcheck),
      ih]
    rfl

end Run

namespace Document

open Edit Pass

variable {doc : Document} {root : NodeId} {f f' : NumberedForest}

/-- **Every run of passes succeeds on a tidy tree**, and leads to a tidy tree. -/
theorem Stands.exists_succeeds (h : doc.Stands root f) (htidy : Tidy root f)
    (read? : String → Option Url) (ctx : Context) (passes : List Pass) :
    ∃ counts doc' f', Run.Succeeds read? ctx passes counts doc doc' ∧ doc'.Stands root f' ∧
      Tidy root f' ∧ Leads root (passes.map (Pass.work read? ctx)) f f' := by
  induction passes generalizing doc f with
  | nil => exact ⟨[], doc, f, .nil doc, h, htidy, .nil f⟩
  | cons pass passes ih =>
    obtain ⟨n, doc₁, m, doc₂, f₂, hpass, hjoin, hstands, hstep⟩ :=
      h.exists_step htidy (pass.work read? ctx)
    rw [← apply_eq_edit] at hpass
    obtain ⟨counts, doc', f', hrun, hstands', htidy', hleads⟩ := ih hstands hstep.after
    exact ⟨(n, m) :: counts, doc', f', .cons hpass hjoin (hstands.validate hstep.after.sound) hrun,
      hstands', htidy', .cons hstep hleads⟩

end Document

/-! ## Pages that were read -/

namespace Forest

/-- Numbering keeps the roots. -/
theorem roots_number (start : NodeId) (f : Forest Content) :
    (f.number start).roots.map (·.2) = f.roots := by
  induction f generalizing start with
  | nil => rfl
  | node c children siblings _ ih => rw [number, roots, List.map_cons, ih, roots]

/-- A forest is numbered in document order. -/
theorem allIds_number (start : NodeId) (f : Forest Content) :
    (f.number start).allIds = List.range' start f.size := by
  induction f generalizing start with
  | nil => rfl
  | node c children siblings ihc ihs =>
    have hsize : (node c children siblings).size = children.size + siblings.size + 1 := by
      rw [size]
      omega
    rw [number, allIds_node, ihc, ihs, hsize, List.range'_succ, List.range'_append_1]

theorem mem_toList_of_mem_roots {α : Type} {f : Forest α} {a : α} (h : a ∈ f.roots) :
    a ∈ f.toList := by
  induction f with
  | nil => cases h
  | node b children siblings _ ih =>
    rw [toList, List.mem_cons, List.mem_append]
    exact (List.mem_cons.mp h).imp_right fun h => .inr (ih h)

theorem mem_toList_of_mem_number {start : NodeId} {f : Forest Content} {x : NodeId × Content}
    (h : x ∈ (f.number start).roots) : x.2 ∈ f.toList := by
  refine mem_toList_of_mem_roots ?_
  rw [← roots_number start f]
  exact List.mem_map_of_mem h

theorem head?_roots {α : Type} (f : Forest α) : f.roots.head? = f.head? := by
  cases f <;> rfl

/-- The roots of a forest that was read are joined. -/
theorem joined_roots_of_built {outer : List String} {f : Forest Content} (h : f.Built outer) :
    Siblings.Joined f.roots := by
  induction f with
  | nil => exact ⟨by simp [roots], .nil⟩
  | node c children siblings _ ih =>
    obtain ⟨hnode, -, hsiblings⟩ := h
    have hrest := ih hsiblings
    refine ⟨fun d hd htext => ?_, hrest.apart.cons fun d hd => ?_⟩
    · rcases List.mem_cons.mp hd with rfl | hd
      · have hspelled := hnode.spelled
        rw [Content.isText, decide_eq_true_eq] at htext
        rw [Content.Spelled, htext] at hspelled
        exact Bool.eq_false_iff.mpr fun hempty => hspelled (String.isEmpty_iff.mp hempty)
      · exact hrest.filled d hd htext
    · rw [head?_roots] at hd
      cases hc : c.isText with
      | false => exact .inl rfl
      | true =>
        have hnext := hnode.apart hc
        rw [Option.mem_def.mp hd, Option.any_some] at hnext
        exact .inr hnext

/-- The families of a forest that was read are tidy. -/
theorem tidy_of_built {outer : List String} {f : Forest Content} (h : f.Built outer)
    {start : NodeId} {free : Bool} {fam : Family} (hfam : fam ∈ (f.number start).families free) :
    fam.Tidy := by
  induction f generalizing outer start free with
  | nil => cases hfam
  | node c children siblings ihc ihs =>
    obtain ⟨hnode, hchildren, hsiblings⟩ := h
    rw [number, families, List.mem_cons, List.mem_append] at hfam
    rcases hfam with rfl | hfam | hfam
    · refine ⟨⟨fun helement => ?_, fun hleaf => ?_, fun child hchild => ?_⟩, ?_⟩
      · have hspelled := hnode.spelled
        rw [Content.isElement, decide_eq_true_eq] at helement
        rw [Content.Spelled, helement] at hspelled
        exact hspelled.2.2
      · rw [Content.isLeaf, Bool.and_eq_true, Bool.or_eq_true, Bool.not_eq_true'] at hleaf
        change (children.number (start + 1)).roots = []
        rw [hnode.childless hleaf.2]
        rfl
      · exact hchildren.kind_ne_document _ (mem_toList_of_mem_number hchild)
      · rw [Family.contents, roots_number]
        exact joined_roots_of_built hchildren
    · exact ihc hchildren hfam
    · exact ihs hsiblings hfam

end Forest

namespace Document

/-- **A page that was read is a tidy tree.** -/
theorem exists_stands_of_parse {maxDepth : Nat} {page : String} {doc : Document}
    (h : Document.parse maxDepth page = .ok doc) :
    ∃ f, Forest.parse maxDepth page = .ok f ∧ doc.Stands 0 (f.number 1) ∧
      Tidy 0 (f.number 1) := by
  rw [Document.parse_eq_map] at h
  cases hparse : Forest.parse maxDepth page with
  | error e =>
    rw [hparse] at h
    cases h
  | ok f =>
    rw [hparse] at h
    cases h
    have hbuilt := Forest.built_of_parse hparse
    refine ⟨f, rfl, ⟨rfl, shows_ofForest f, ?_, levels_numbered f⟩, fun fam hfam => ?_⟩
    · rw [Forest.allIds_node, Forest.allIds_number, Forest.allIds_nil, List.append_nil]
      exact List.nodup_range' (s := 0) (n := f.size + 1)
    · rw [familiesOf, Forest.families, List.mem_cons, List.mem_append] at hfam
      rcases hfam with rfl | hfam | hfam
      · refine ⟨⟨by simp [Content.document, Content.isElement], fun hleaf => ?_,
          fun child hchild => ?_⟩, ?_⟩
        · cases hleaf
        · exact hbuilt.kind_ne_document _ (Forest.mem_toList_of_mem_number hchild)
        · rw [Family.contents, Forest.roots_number]
          exact Forest.joined_roots_of_built hbuilt
      · exact Forest.tidy_of_built hbuilt hfam
      · cases hfam

end Document

/-- Reading fails only on pages that nest too deep. -/
theorem Document.depthExceeded_of_parse {maxDepth : Nat} {page : String} {e : DocumentError}
    (h : Document.parse maxDepth page = .error e) :
    ∃ depth, e = .depthExceeded depth maxDepth := by
  rw [Document.parse_eq] at h
  split at h
  · cases h
  · cases h
    exact ⟨_, rfl⟩

namespace Settings

variable {read? : String → Option Url}

/-- How a page is written after the active passes. -/
def writeOptions (s : Settings) : WriteOptions :=
  s.active.foldl (fun options pass => pass.adjust options) {}

/-- What is written after a run that succeeds is what minifying gives. -/
theorem minify?_of_succeeds (s : Settings) {page output : String} {doc doc' : Document}
    {counts : List (Nat × Nat)} (hparse : Document.parse s.depthLimit page = .ok doc)
    (hrun : Run.Succeeds read? s.context s.active counts doc doc')
    (hwrite : doc'.serialize s.writeOptions = .ok output) :
    s.minify? read? page = .ok output ∧ s.minify read? page = output := by
  have happly : (ExceptT.run (Run.settings read? s)).run doc = (.ok s.writeOptions, doc') :=
    hrun.apply_passes {}
  have hminify : s.minify? read? page = .ok output := by
    rw [minify?, hparse]
    simp only [happly, hwrite]
  exact ⟨hminify, by rw [minify, minifyWithReport, hminify]⟩

/-- A page that was read is minified. -/
theorem exists_minify? (s : Settings) (read? : String → Option Url) {page : String} {doc : Document}
    (h : Document.parse s.depthLimit page = .ok doc) :
    ∃ counts doc', Run.Succeeds read? s.context s.active counts doc doc' ∧
      doc'.serialize s.writeOptions = .ok (s.minify read? page) ∧
      s.minify? read? page = .ok (s.minify read? page) := by
  obtain ⟨f, -, hstands, htidy⟩ := Document.exists_stands_of_parse h
  obtain ⟨counts, doc', f', hrun, hstands', -, -⟩ :=
    hstands.exists_succeeds htidy read? s.context s.active
  have hwrite := hstands'.serialize s.writeOptions
  obtain ⟨hminify, houtput⟩ := s.minify?_of_succeeds h hrun hwrite
  rw [houtput]
  exact ⟨counts, doc', hrun, hwrite, hminify⟩

/-- A page that cannot be read stays as it is. -/
theorem minify?_of_parse_error (s : Settings) (read? : String → Option Url) {page : String}
    {e : DocumentError} (h : Document.parse s.depthLimit page = .error e) :
    s.minify? read? page = .error (.document e) ∧ s.minify read? page = page := by
  have hminify : s.minify? read? page = .error (.document e) := by rw [minify?, h]
  exact ⟨hminify, by rw [minify, minifyWithReport, hminify]⟩

/-- **Minifying fails only on pages that nest too deep.** Such a page stays as it is. On any other
page every pass succeeds, every joining of texts, every check and the writing. -/
theorem fellBack_iff_depthExceeded (s : Settings) (read? : String → Option Url) (page : String) :
    ((s.minifyWithReport read? page).2.fellBack = true ↔
        ∃ depth max, Document.parse s.depthLimit page = .error (.depthExceeded depth max)) ∧
      (∀ e, Document.parse s.depthLimit page = .error e →
        (s.minifyWithReport read? page).1 = page ∧ s.minify read? page = page ∧
          s.minify? read? page = .error (.document e)) ∧
      ∀ doc, Document.parse s.depthLimit page = .ok doc →
        ∃ counts doc', Run.Succeeds read? s.context s.active counts doc doc' ∧
          (Run.settings read? s).apply doc = (.ok s.writeOptions, doc') ∧
          doc'.serialize s.writeOptions = .ok (s.minify read? page) ∧
          s.minify? read? page = .ok (s.minify read? page) := by
  refine ⟨⟨fun hfell => ?_, ?_⟩, fun e hparse => ?_, fun doc hparse => ?_⟩
  · cases hparse : Document.parse s.depthLimit page with
    | error e =>
      obtain ⟨depth, rfl⟩ := Document.depthExceeded_of_parse hparse
      exact ⟨depth, _, rfl⟩
    | ok doc =>
      obtain ⟨-, -, -, -, hminify⟩ := s.exists_minify? read? hparse
      simp [minifyWithReport, hminify, Except.isOk, Except.toBool] at hfell
  · rintro ⟨depth, max, hparse⟩
    rw [minifyWithReport, (s.minify?_of_parse_error read? hparse).1]
    rfl
  · obtain ⟨hminify, houtput⟩ := s.minify?_of_parse_error read? hparse
    exact ⟨houtput, houtput, hminify⟩
  · obtain ⟨counts, doc', hrun, hwrite, hminify⟩ := s.exists_minify? read? hparse
    exact ⟨counts, doc', hrun, hrun.apply_passes {}, hwrite, hminify⟩

end Settings

end HtmlMinify
