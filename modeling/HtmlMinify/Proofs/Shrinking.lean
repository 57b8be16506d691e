import HtmlMinify.Proofs.Stability
import HtmlMinify.Proofs.WrittenSize

/-!
# Passes never make a page longer

`Content.cost` is what a node takes when it is written plainly, with all quotes and end tags. The
costs of all nodes add up to the plain page, and any other way of writing takes no more. No pass makes
siblings cost more: where a comment goes and two texts are joined, the comment pays for the angle
bracket that may have to be escaped.

## Main statements

* `Siblings.cost_join_kept_le`: removing comments and joining texts.
* `Siblings.cost_left_le`: every pass, among siblings.
* `Forest.bytes_markup`: costs and written pages.
* `Settings.minify_le_minify_withoutPasses`: passes never make a page longer.
-/

namespace HtmlMinify

open Text

/-- The bytes of a text, raw or escaped. -/
def Text.textBytes (raw : Bool) (cs : List Char) : Nat :=
  if raw then bytes cs else escapedBytes cs

/-- What a text takes to be written is a measure, whether it is raw or not. -/
theorem Text.measure_textBytes (raw : Bool) : Measure (textBytes raw) := by
  cases raw with
  | true => exact measure_bytes
  | false => exact measure_escapedBytes

/-! ## Nodes -/

namespace Content

/-- The bytes of a node itself, written plainly, as raw text or not. -/
def cost (raw : Bool) (c : Content) : Nat :=
  match c.kind with
  | .text => textBytes raw c.value.toList
  | .element =>
    bytes (c.writeStart {}).toList + if c.isLeafElement then 0 else bytes (writeEnd c.name).toList
  | _ => bytes c.writeLeaf

variable {raw : Bool} {c : Content}

/-- A text costs what it takes to be written. -/
theorem cost_of_isText (h : c.isText = true) : c.cost raw = textBytes raw c.value.toList := by
  rw [isText, decide_eq_true_eq] at h
  rw [cost, h]

/-- A text with a shorter value costs no more. -/
theorem cost_text_le (h : c.isText = true) {value : String}
    (hvalue : textBytes raw value.toList ≤ textBytes raw c.value.toList) :
    ({ c with value } : Content).cost raw ≤ c.cost raw := by
  rw [cost_of_isText h, cost_of_isText (c := { c with value }) h]
  exact hvalue

/-- A comment that goes pays for what joining texts may cost. -/
theorem three_le_cost_of_isRemovable (h : Comments.isRemovable c = true) : 3 ≤ c.cost raw := by
  simp only [Comments.isRemovable, Bool.and_eq_true, decide_eq_true_eq] at h
  have hend := measure_bytes.ending ('<' :: '!' :: '-' :: '-' :: c.value.toList) ['-', '-', '>']
  rw [cost, h.1, writeLeaf, h.1]
  exact Nat.le_trans (by decide) hend

/-- A rule on attributes makes no node cost more. -/
theorem cost_ruled_le (rule : AttributeRule.Rule) (c : Content) :
    (Document.ruled rule.run c).cost raw ≤ c.cost raw := by
  rw [Document.ruled]
  split
  · next helement =>
    have hkind : c.kind = .element := by simpa [isElement] using helement
    have hstart := bytes_writeStart_attributes_le (rule.cost_run_le c)
    rw [cost, cost]
    simp only [hkind]
    exact Nat.add_le_add_right hstart _
  · exact Nat.le_refl _

end Content

/-! ## Siblings -/

namespace Siblings

/-- The bytes of siblings themselves. -/
def cost (raw : Bool) (l : List Content) : Nat :=
  (l.map (Content.cost raw)).sum

variable {raw : Bool}

theorem cost_cons (c : Content) (l : List Content) : cost raw (c :: l) = c.cost raw + cost raw l :=
  rfl

/-- Siblings in two parts cost what both parts do. -/
theorem cost_append (l l' : List Content) : cost raw (l ++ l') = cost raw l + cost raw l' := by
  rw [cost, List.map_append, List.sum_append, cost, cost]

/-- Changes that make no node cost more make siblings cost no more. -/
theorem cost_map_le {g : Content → Content} {l : List Content}
    (h : ∀ c ∈ l, (g c).cost raw ≤ c.cost raw) : cost raw (l.map g) ≤ cost raw l := by
  rw [cost, List.map_map]
  exact List.sum_le_sum h

/-- Dropping siblings makes the others cost no more. -/
theorem cost_filter_le (keep : Content → Bool) (l : List Content) :
    cost raw (l.filter keep) ≤ cost raw l :=
  (List.filter_sublist.map _).sum_le_sum fun _ _ => Nat.zero_le _

/-- Trimming at block edges makes siblings cost no more. -/
theorem cost_trimmedSiblings_le (parent : Content) (before : Option Content) (l : List Content) :
    cost raw (Whitespace.trimmedSiblings parent before l) ≤ cost raw l := by
  induction l generalizing before with
  | nil => exact Nat.le_refl _
  | cons c l ih =>
    rw [Whitespace.trimmedSiblings, cost_cons, cost_cons]
    refine Nat.add_le_add ?_ (ih (some c))
    split
    · next hc => exact Content.cost_text_le hc ((measure_textBytes raw).trimmed_le ..)
    · exact Nat.le_refl _

/-- A text that joins another costs three bytes more at most: for a bracket that comes to begin
markup. -/
theorem cost_joinTo_le {open? : Option Content} (hopen : ∀ t ∈ open?, t.isText = true)
    {c : Content} (hc : c.isText = true) :
    (joinTo open? c).cost raw ≤
      cost raw open?.toList + c.cost raw + if open?.isSome then 3 else 0 := by
  cases open? with
  | none => exact Nat.le_of_eq (Nat.zero_add _).symm
  | some first =>
    have hjoined := (measure_textBytes raw).joined first.value.toList c.value.toList
    have hfirst : first.isText = true := hopen first rfl
    have hboth := isText_joinTo hopen hc
    rw [Content.cost_of_isText hboth, Option.toList_some, cost_cons,
      Content.cost_of_isText hfirst, Content.cost_of_isText hc, joinTo, String.toList_append]
    exact hjoined

/-- **Removing comments and joining texts.** A text that joins the one before it costs three bytes
more, and some comment between the two is gone. -/
theorem cost_join_kept_le {open? : Option Content} (hopen : ∀ t ∈ open?, t.isText = true)
    (b : Bool) {l : List Content}
    (hl : l.IsChain fun a b => a.isText = false ∨ b.isText = false) :
    cost raw (join open? (Comments.kept b l)) ≤ cost raw open?.toList + cost raw l +
      if open?.isSome && l.head?.any (·.isText) then 3 else 0 := by
  induction l generalizing open? b with
  | nil => exact Nat.le_add_right ..
  | cons c l ih =>
    obtain ⟨hnext, hrest⟩ := List.isChain_cons.mp hl
    rw [Comments.kept, List.head?_cons, Option.any_some, cost_cons]
    cases hc : c.isText with
    | true =>
      -- After a text comes none, so the rest costs nothing more.
      have hhead : l.head?.any (·.isText) = false := by
        cases hl : l.head? with
        | none => rfl
        | some d => exact (hnext d hl).resolve_left (by simp [hc])
      rw [if_pos rfl, join, hc, Bool.not_true, if_neg Bool.false_ne_true, Bool.and_true]
      split
      · have hbelow := ih hopen (Comments.endsInOpenReference c.value) hrest
        rw [hhead, Bool.and_false, if_neg Bool.false_ne_true] at hbelow
        omega
      · have hhere : (joinTo open? c).cost raw ≤ _ := cost_joinTo_le hopen hc
        have hbelow := @ih (some (joinTo open? c))
          (fun t ht => (Option.some.inj ht) ▸ isText_joinTo hopen hc)
          (Comments.endsInOpenReference c.value) hrest
        rw [hhead, Bool.and_false, if_neg Bool.false_ne_true, Option.toList_some, cost_cons]
          at hbelow
        have hnone : cost raw [] = 0 := rfl
        omega
    | false =>
      have hstays : cost raw (join open? (c :: Comments.kept false l)) ≤
          cost raw open?.toList + (c.cost raw + cost raw l) := by
        have hbelow := @ih none (by simp) false hrest
        have hnone : cost raw (none : Option Content).toList = 0 := rfl
        rw [Option.isSome_none, Bool.false_and, if_neg Bool.false_ne_true] at hbelow
        rw [join, hc, Bool.not_false, if_pos rfl, cost_append, cost_cons]
        omega
      rw [if_neg Bool.false_ne_true, Bool.and_false, if_neg Bool.false_ne_true, Nat.add_zero]
      split
      · exact hstays
      · next hremovable =>
        split
        · exact hstays
        -- The comment that goes pays for the text that may now join another.
        · have hpays : 3 ≤ c.cost raw :=
            Content.three_le_cost_of_isRemovable (by simpa using hremovable)
          have hbelow := ih hopen b hrest
          split at hbelow <;> omega

/-- **No pass makes siblings cost more**, once texts are joined again. -/
theorem cost_left_le (w : Pass.Work) {fam : Family} (h : fam.Tidy) :
    cost raw (join none (w.left fam)) ≤ cost raw fam.contents := by
  have hmeasure := measure_textBytes raw
  cases w with
  | comments =>
    have hkept := @cost_join_kept_le raw none (by simp) false _ h.joined.apart
    rw [Option.isSome_none, Bool.false_and, if_neg Bool.false_ne_true] at hkept
    exact Nat.le_trans hkept (Nat.le_of_eq (Nat.zero_add _))
  | collapse =>
    rw [Pass.Work.left, Document.join_collapsed h, Document.collapsed]
    split
    · refine cost_map_le fun c _ => ?_
      rw [Whitespace.collapsed]
      split
      · next hc =>
        refine Content.cost_text_le hc ?_
        rw [collapse, String.toList_ofList]
        exact hmeasure.collapsed false _
      · exact Nat.le_refl _
    · exact Nat.le_refl _
  | trim =>
    rw [Pass.Work.left, Document.trimmed]
    split
    · rw [Document.join_trimmedIn h]
      exact Nat.le_trans (cost_filter_le ..) (cost_trimmedSiblings_le ..)
    · rw [join_of_joined h.joined]
  | blanks =>
    rw [Pass.Work.left, Document.join_unblanked h, Document.unblanked]
    split
    · exact cost_filter_le ..
    · exact Nat.le_refl _
  | rule r =>
    rw [Pass.Work.left, Document.join_ruledIn h]
    exact cost_map_le fun c _ => Content.cost_ruled_le r c
  | nothing => rw [Pass.Work.left, join_of_joined h.joined]

end Siblings

/-! ## Forests -/

/-- A node without children is written in its own markup, which costs most if it is plain. -/
theorem Content.exists_markup_of_isLeaf {c : Content} (h : c.isLeaf = true) (quirks : Bool)
    (outer : List String) :
    ∃ own : WriteOptions → List Char,
      (∀ options, bytes (own options) ≤ c.cost (rawIn outer)) ∧
      c.cost (rawIn outer) ≤ bytes (own {}) ∧
      ∀ options closer (siblings : Forest Content),
        Forest.markup options quirks outer closer (.node c .nil siblings) =
          own options ++ siblings.markup options quirks outer closer := by
  have hdeclaration : c.isDeclaration = true → c.cost (rawIn outer) = bytes c.writeLeaf →
      ∃ own : WriteOptions → List Char,
        (∀ options, bytes (own options) ≤ c.cost (rawIn outer)) ∧
        c.cost (rawIn outer) ≤ bytes (own {}) ∧
        ∀ options closer (siblings : Forest Content),
          Forest.markup options quirks outer closer (.node c .nil siblings) =
            own options ++ siblings.markup options quirks outer closer := by
    intro hdeclared hcost
    refine ⟨fun _ => c.writeLeaf, fun _ => Nat.le_of_eq hcost.symm, Nat.le_of_eq hcost, ?_⟩
    exact fun options closer siblings => Forest.markup_of_isDeclaration hdeclared
  cases hkind : c.kind with
  | document =>
    rw [isLeaf, hkind] at h
    cases h
  | text =>
    have hbytes : bytes (if rawIn outer then c.value else escapeText c.value).toList =
        c.cost (rawIn outer) := by
      rw [cost, hkind, textBytes]
      split
      · rfl
      · rw [escapeText, String.toList_ofList, escapedBytes]
    exact ⟨_, fun _ => Nat.le_of_eq hbytes, Nat.le_of_eq hbytes.symm,
      fun options closer siblings => Forest.markup_of_text hkind⟩
  | element =>
    have hleaf : c.isLeafElement = true := by
      rw [isLeaf, isElement, hkind] at h
      exact h
    have hcost : c.cost (rawIn outer) = bytes (c.writeStart {}).toList := by
      rw [cost, hkind, hleaf, if_pos rfl, Nat.add_zero]
    refine ⟨fun options => (c.writeStart options).toList, fun options => ?_,
      Nat.le_of_eq hcost, fun options closer siblings =>
        Forest.markup_of_leafElement hkind hleaf rfl⟩
    rw [hcost]
    exact c.bytes_writeStart_le options
  | _ => exact hdeclaration (by rw [isDeclaration, hkind]) (by rw [cost, hkind])

namespace Forest

/-- The bytes of all nodes of a forest inside the elements `outer`, written plainly. -/
def cost (outer : List String) : Forest Content → Nat
  | nil => 0
  | node c children siblings =>
    c.cost (rawIn outer) + children.cost (c.name :: outer) + siblings.cost outer

/-- The bytes of all nodes below the roots. -/
def costBelow (outer : List String) : Forest Content → Nat
  | nil => 0
  | node c children siblings => children.cost (c.name :: outer) + siblings.costBelow outer

/-- A forest costs what its roots do, and what is below them. -/
theorem cost_eq (outer : List String) (f : NumberedForest) :
    f.contents.cost outer =
      Siblings.cost (rawIn outer) (f.roots.map (·.2)) + f.contents.costBelow outer := by
  induction f with
  | nil => rfl
  | node label children siblings _ ih =>
    rw [contents_node, cost, costBelow, roots, List.map_cons, Siblings.cost_cons, ih]
    omega

/-- What passes leave costs no more, if siblings do not. -/
theorem Becomes.costBelow_le {sorts free : Bool}
    {Left : Family → List (NodeId × Content) → Prop} {f f' : NumberedForest}
    (h : f.Becomes sorts Left free f')
    (hleft : ∀ fam ∈ f.families free, ∀ left, Left fam left →
      ∀ raw, Siblings.cost raw (left.map (·.2)) ≤ Siblings.cost raw fam.contents)
    (outer : List String) : f'.contents.costBelow outer ≤ f.contents.costBelow outer := by
  induction h generalizing outer with
  | nil => exact Nat.le_refl _
  | drop _ _ ih =>
    have hbeside := ih (fun fam hfam =>
      hleft fam (mem_of_mem_beside hfam)) outer
    rw [contents_node, costBelow]
    omega
  | @keep _ id c c' children children' _ _ hedited hhere _ _ ihc ihs =>
    have hbelow := ihc (fun fam hfam =>
      hleft fam (mem_of_mem_below hfam)) (c.name :: outer)
    have hbeside := ihs (fun fam hfam =>
      hleft fam (mem_of_mem_beside hfam)) outer
    have hroots : Siblings.cost (rawIn (c.name :: outer)) (children'.roots.map (·.2)) ≤
        Siblings.cost (rawIn (c.name :: outer)) (children.roots.map (·.2)) :=
      hleft _ List.mem_cons_self _ hhere _
    rw [contents_node, contents_node, costBelow, costBelow, hedited.name, cost_eq, cost_eq]
    omega

/-- **What a forest costs.** No way of writing takes more, and the plain one takes as much. -/
theorem bytes_markup {free : Bool} {f : NumberedForest} (quirks : Bool)
    (hsound : ∀ fam ∈ f.families free, fam.Sound)
    (hroots : ∀ x ∈ f.roots, x.2.kind ≠ .document) (outer : List String) :
    (∀ options closer,
        bytes (f.contents.markup options quirks outer closer) ≤ f.contents.cost outer) ∧
      ∀ closer, f.contents.cost outer ≤ bytes (f.contents.markup {} quirks outer closer) := by
  induction f generalizing free outer with
  | nil => exact ⟨fun _ _ => Nat.le_refl _, fun _ => Nat.le_refl _⟩
  | node label children siblings ihc ihs =>
    obtain ⟨id, c⟩ := label
    rw [families] at hsound
    have hhere := hsound _ List.mem_cons_self
    obtain ⟨hleBelow, hgeBelow⟩ := ihc (fun fam hfam =>
      hsound fam (mem_of_mem_below hfam)) hhere.noDocument
      (c.name :: outer)
    obtain ⟨hleBeside, hgeBeside⟩ := ihs (fun fam hfam =>
      hsound fam (mem_of_mem_beside hfam))
      (fun x hx => hroots x (List.mem_cons_of_mem _ hx)) outer
    rw [contents_node, cost]
    cases hleaf : c.isLeaf with
    | true =>
      obtain ⟨own, hle, hge, hmarkup⟩ := Content.exists_markup_of_isLeaf hleaf quirks outer
      rw [eq_nil_of_sound hhere hleaf, contents_nil, cost, Nat.add_zero]
      refine ⟨fun options closer => ?_, fun closer => ?_⟩
      · rw [hmarkup, bytes_append]
        exact Nat.add_le_add (hle options) (hleBeside options closer)
      · rw [hmarkup, bytes_append]
        exact Nat.add_le_add hge (hgeBeside closer)
    | false =>
      obtain ⟨hkind, hopen⟩ :=
        Content.kind_of_not_isLeaf hleaf (hroots _ List.mem_cons_self)
      have hcost : c.cost (rawIn outer) =
          bytes (c.writeStart {}).toList + bytes (writeEnd c.name).toList := by
        rw [Content.cost, hkind, hopen]
        rfl
      refine ⟨fun options closer => ?_, fun closer => ?_⟩
      -- An end tag that is left out only saves bytes.
      · have hstart := c.bytes_writeStart_le options
        have hend : bytes (c.endTag (c.closer? options quirks outer closer siblings.contents.head?)) ≤
            bytes (writeEnd c.name).toList := by
          rw [Content.endTag]
          split
          · exact Nat.zero_le _
          · exact Nat.le_refl _
        have hbelow := hleBelow options
          ((c.closer? options quirks outer closer siblings.contents.head?).getD
            (.endTag c.name outer.length))
        have hbeside := hleBeside options closer
        rw [markup_of_element hkind hopen, bytes_append, bytes_append, bytes_append]
        omega
      -- In plain markup no end tag is left out, so the bound is met.
      · have hnone : c.closer? {} quirks outer closer siblings.contents.head? = none := rfl
        have hbelow := hgeBelow (.endTag c.name outer.length)
        have hbeside := hgeBeside closer
        rw [markup_of_element hkind hopen, hnone, Option.getD_none, bytes_append, bytes_append,
          bytes_append]
        change _ ≤ _ + (_ + (bytes (writeEnd c.name).toList + _))
        omega

end Forest

/-! ## Pages -/

namespace Document

open Pass

variable {root : NodeId} {f f' : NumberedForest}

/-- The bytes of a tree below its root, written plainly. -/
def costOf (f : NumberedForest) : Nat :=
  f.contents.cost []

/-- A step leaves a tree that costs no more. -/
theorem Step.cost_le {w : Work} (h : Step w root f f') : costOf f' ≤ costOf f := by
  obtain ⟨hhere, hbelow⟩ := h.turns.below
  have hleft : ∀ fam ∈ familiesOf root f, ∀ left : List (NodeId × Content),
      Family.Leaves (fun fam => Siblings.join none (w.left fam)) fam left →
      ∀ raw, Siblings.cost raw (left.map (·.2)) ≤ Siblings.cost raw fam.contents := by
    intro fam hfam left hleaves raw
    rw [Family.Leaves] at hleaves
    rw [hleaves]
    exact Siblings.cost_left_le w (h.before fam hfam)
  have hroots : Siblings.cost (rawIn []) (f'.roots.map (·.2)) ≤
      Siblings.cost (rawIn []) (f.roots.map (·.2)) :=
    hleft _ List.mem_cons_self _ hhere _
  have hcost := hbelow.costBelow_le (fun fam hfam =>
    hleft fam (Forest.mem_of_mem_below hfam)) []
  rw [costOf, costOf, Forest.cost_eq, Forest.cost_eq]
  omega

/-- **A run leaves a tree that costs no more.** -/
theorem Leads.cost_le {ws : List Work} (h : Leads root ws f f') : costOf f' ≤ costOf f :=
  h.preserves (R := fun f f' => costOf f' ≤ costOf f) (fun _ => Nat.le_refl _)
    (fun h h' => Nat.le_trans h' h) fun _ _ _ _ hstep => hstep.cost_le

/-- A page takes no more than its tree costs, and as much if it is written plainly. -/
theorem Stands.exists_serialize {doc : Document} (h : doc.Stands root f) (hsound : Sound root f)
    (options : WriteOptions) :
    ∃ output, doc.serialize options = .ok output ∧ output.utf8ByteSize ≤ costOf f ∧
      (options = {} → costOf f ≤ output.utf8ByteSize) := by
  have hroot := hsound _ List.mem_cons_self
  obtain ⟨hle, hge⟩ := Forest.bytes_markup (Doctype.pageQuirks f.contents.roots)
    (fun fam hfam => hsound fam (Forest.mem_of_mem_below hfam))
    hroot.noDocument []
  refine ⟨_, h.serialize options, ?_, ?_⟩
  · rw [utf8ByteSize_ofList]
    exact hle options .endOfPage
  · rintro rfl
    rw [utf8ByteSize_ofList]
    exact hge .endOfPage

end Document

namespace Settings

/-- The same depth limit, and no passes. -/
def withoutPasses (s : Settings) : Settings :=
  { off with maxDepth := s.maxDepth }

/-- Without passes none is active. -/
theorem active_withoutPasses (s : Settings) : s.withoutPasses.active = [] := by
  have hnone : ∀ ran passes, s.withoutPasses.activeAmong ran passes = [] := by
    intro ran passes
    induction passes with
    | nil => rfl
    | cons pass passes ih => exact ih
  exact hnone [] Pass.all

/-- **Passes never make a page longer** than it is when it is read and written without any. -/
theorem minify_le_minify_withoutPasses (s : Settings) (read? : String → Option Url)
    (page : String) :
    (s.minify read? page).utf8ByteSize ≤ (s.withoutPasses.minify read? page).utf8ByteSize := by
  cases hparse : Document.parse s.depthLimit page with
  | error e =>
    rw [(s.minify?_of_parse_error read? hparse).2,
      (s.withoutPasses.minify?_of_parse_error read? hparse).2]
  | ok doc =>
    obtain ⟨f, -, hstands, htidy⟩ := Document.exists_stands_of_parse hparse
    obtain ⟨counts, doc', f', hrun, hstands', htidy', hleads⟩ :=
      hstands.exists_succeeds htidy read? s.context s.active
    obtain ⟨output, hwrite, hle, -⟩ := hstands'.exists_serialize htidy'.sound s.writeOptions
    obtain ⟨plain, hplain, -, hge⟩ := hstands.exists_serialize htidy.sound {}
    have hnone : Run.Succeeds read? s.withoutPasses.context s.withoutPasses.active [] doc doc := by
      rw [s.active_withoutPasses]
      exact .nil doc
    have hoptions : s.withoutPasses.writeOptions = {} := by
      rw [writeOptions, s.active_withoutPasses]
      rfl
    rw [← hoptions] at hplain
    rw [(s.minify?_of_succeeds hparse hrun hwrite).2,
      (s.withoutPasses.minify?_of_succeeds hparse hnone hplain).2]
    exact Nat.le_trans hle (Nat.le_trans hleads.cost_le (hge rfl))

end Settings

end HtmlMinify
