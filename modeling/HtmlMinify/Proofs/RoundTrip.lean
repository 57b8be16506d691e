import HtmlMinify.Proofs.Arena
import HtmlMinify.Proofs.Drafts
import HtmlMinify.Proofs.ReadBack

/-!
# Reading undoes writing

A document is written from the forest below its root, so its markup is read back as that forest,
up to what had to be escaped. `Forest.Verbatim` says that nothing had to be.

## Main statements

* `Document.serialize_of_shows`: the markup of a document is that of the forest it shows.
* `Document.parse_serialize`: a well spelled and well nested document is read back from its markup.
-/

namespace HtmlMinify

open Text

/-! ## Documents as forests -/

/-- Quirks mode does not depend on how start tags close. -/
theorem Forest.pageQuirks_place (owner : Option String) (f : Forest Content) :
    Doctype.pageQuirks ((f.place owner).roots.map (·.toContent)) = Doctype.pageQuirks f.roots := by
  induction f with
  | nil => rfl
  | node c children siblings _ ih =>
    rw [place, roots, roots, List.map_cons, Doctype.pageQuirks, Doctype.pageQuirks, ih]
    rfl

section Shown

variable {doc : Document} {parent : Option NodeId} {root : NodeId} {c : Content}
  {below : NumberedForest}

/-- The outline of a document is that of the forest below its root. -/
theorem Document.outline_of_shows (hroot : doc.root = some root)
    (h : doc.Shows parent (.node (root, c) below .nil)) (hc : c.kind = .document)
    (hlevels : below.levels ≤ doc.size) :
    ∃ label, label.kind = .document ∧
      doc.outline = .ok (.node label (below.contents.place none) .nil) := by
  have hle : (Forest.node (root, c) below .nil).levels ≤ doc.maxLevels := by
    rw [Forest.levels, maxLevels]
    exact Nat.max_le.mpr ⟨Nat.succ_le_succ hlevels, Nat.zero_le _⟩
  have houtline := outlines_of_shows h hle
  have htag : c.tag? = none := by simp [Content.tag?, hc]
  have hwrites : writesChildren { toContent := c } = true := by simp [writesChildren, hc]
  rw [Forest.ids_node, Forest.ids_nil, Forest.contents_node, Forest.contents_nil, Forest.place,
    hwrites, if_pos rfl, htag] at houtline
  refine ⟨_, ?_, by rw [outline, hroot, Option.toList_some, houtline, Forest.place]⟩
  rw [Content.kind_place, hc]

/-- **The markup of a document is that of the forest below its root.** -/
theorem Document.serialize_of_shows (hroot : doc.root = some root)
    (h : doc.Shows parent (.node (root, c) below .nil)) (hc : c.kind = .document)
    (hlevels : below.levels ≤ doc.size) (options : WriteOptions) :
    doc.serialize options = .ok (String.ofList
      (below.contents.markup options (Doctype.pageQuirks below.contents.roots) [] .endOfPage)) := by
  obtain ⟨label, hkind, houtline⟩ := outline_of_shows hroot h hc hlevels
  rw [serialize, houtline]
  simp only [bind, Except.bind]
  rw [Forest.quirks, Forest.pageQuirks_place, Forest.write]
  simp only [hkind, Forest.write, String.append_empty]
  rw [Forest.markup, String.ofList_toList]
  rfl

end Shown

/-- A forest in a document is written as its markup. -/
theorem Document.serialize_ofForest (f : Forest Content) (options : WriteOptions) :
    (ofForest f).serialize options = .ok (String.ofList
      (f.markup options (Doctype.pageQuirks f.roots) [] .endOfPage)) := by
  have h := serialize_of_shows rfl (shows_ofForest f) rfl (levels_numbered f) options
  rwa [Forest.contents_number] at h

/-! ## Texts that need no escape -/

/-- A plain text is its own escaped form. -/
theorem escapeChars_of_isPlain {cs : List Char} (h : IsPlain cs) : escapeChars cs = cs := by
  induction cs with
  | nil => rfl
  | cons c cs ih =>
    have hkeep : (c == '<' && cs.head?.any beginsMarkup) = false := by
      cases cs with
      | nil => simp
      | cons d cs =>
        by_cases hc : c = '<'
        · simp [hc, (List.isChain_cons_cons.mp h).1 hc]
        · simp [hc]
    rw [escapeChars, if_neg (by simp [hkeep]), ih h.of_cons]

/-- The node holds nothing that has to be escaped, and nothing that nodes of its kind do not use. -/
def Content.Verbatim (raw : Bool) (c : Content) : Prop :=
  match c.kind with
  | .element =>
    c.value = "" ∧ ∀ a ∈ c.attributes.toList, ∀ value ∈ a.value,
      ¬ ('\x22' ∈ value.toList ∧ '\x27' ∈ value.toList)
  | .text => c = .leaf .text c.value ∧ (raw = false → IsPlain c.value.toList)
  | kind => c = .leaf kind c.value

/-- All nodes of a forest inside `outer` are verbatim. -/
def Forest.Verbatim : List String → Forest Content → Prop
  | _, nil => True
  | outer, node c children siblings =>
    c.Verbatim (rawIn outer) ∧ children.Verbatim (c.name :: outer) ∧ siblings.Verbatim outer

/-- An attribute without both quotes is read as it is. -/
theorem Attribute.asRead_of_verbatim {a : Attribute}
    (h : ∀ value ∈ a.value, ¬ ('\x22' ∈ value.toList ∧ '\x27' ∈ value.toList)) :
    a.asRead {} = a := by
  obtain ⟨name, value⟩ := a
  cases value with
  | none => rfl
  | some value =>
    have hkeep : valueAsRead value = value := by
      refine if_neg ?_
      simpa using h value rfl
    simp [asRead, hkeep]

/-- Contents that are written as they are, are read as they are. -/
theorem Content.asRead_of_verbatim {c : Content} {raw : Bool} (h : c.Verbatim raw) :
    c.asRead {} raw = c := by
  unfold Verbatim at h
  cases hkind : c.kind with
  | element =>
    rw [hkind] at h
    obtain ⟨hvalue, hattributes⟩ := h
    have hread : c.attributes.asRead {} = c.attributes := by
      have hmap : c.attributes.toList.map (·.asRead {}) = c.attributes.toList := by
        conv_rhs => rw [← List.map_id c.attributes.toList]
        exact List.map_congr_left fun a ha => Attribute.asRead_of_verbatim (hattributes a ha)
      rw [Attributes.asRead, hmap]
    rw [asRead_element hkind, hread]
    cases c
    simp_all [element]
  | text =>
    rw [hkind] at h
    obtain ⟨hleaf, hplain⟩ := h
    rw [asRead_text hkind]
    cases raw with
    | true => exact hleaf.symm
    | false =>
      rw [if_neg (by decide), escapeText, escapeChars_of_isPlain (hplain rfl),
        String.ofList_toList]
      exact hleaf.symm
  | comment | cdata | instruction | doctype | document =>
    rw [hkind] at h
    rw [asRead, hkind]
    exact h.symm

/-- A verbatim forest is read as it is. -/
theorem Forest.asRead_of_verbatim {f : Forest Content} {outer : List String}
    (h : f.Verbatim outer) : f.asRead {} outer = f := by
  induction f generalizing outer with
  | nil => rfl
  | node c children siblings ihc ihs =>
    rw [asRead, Content.asRead_of_verbatim h.1, ihc h.2.1, ihs h.2.2]

/-! ## Round trips -/

/-- **Reading undoes writing.** A document whose links are consistent, whose nodes can be written
where they stand and whose start tags end no element around them is read back from its markup, at
every nesting depth that its elements fit in. Only what must be escaped is found escaped. -/
theorem Document.parse_serialize {doc : Document} {root : Content} {f : Forest Content}
    {maxDepth : Nat} (hvalid : doc.validate = .ok ()) (htree : doc.tree = .ok (.node root f .nil))
    (hroot : root.kind = .document) (hspelled : f.Spelled {} [])
    (hnested : f.WellNested (Doctype.pageQuirks f.roots) []) (hheight : f.height ≤ maxDepth) :
    (∃ markup parsed, doc.serialize {} = .ok markup ∧ Document.parse maxDepth markup = .ok parsed ∧
      parsed.tree = .ok (.node .document (f.asRead {} []) .nil)) ∧
    (f.Verbatim [] → f.asRead {} [] = f) := by
  obtain ⟨id, below, parent, hid, hshows, rfl, hlevels⟩ :=
    exists_shows_of_validate hvalid htree hroot hspelled.built.kind_ne_document
  have hparse := Forest.parse_markup hspelled (hnested.nests {} .endOfPage false) hheight
  refine ⟨⟨_, ofForest (below.contents.asRead {} []),
    serialize_of_shows hid hshows hroot hlevels {}, ?_, tree_ofForest _⟩,
    Forest.asRead_of_verbatim⟩
  rw [Document.parse_eq_map, hparse]
  rfl

/-- A page with a doctype, a paragraph with attributes, text and a void element, and a script. -/
def samplePage : Forest Content :=
  .node (.leaf .doctype "DOCTYPE html") .nil <|
  .node (.element "p" ⟨[⟨"hidden", none⟩, ⟨"title", some "it's"⟩]⟩ false)
    (.node (.leaf .text "1 < 2") .nil (.node (.element "br" .empty false) .nil .nil)) <|
  .node (.element "script" .empty false) (.node (.leaf .text "a</b>") .nil .nil) .nil

/-- The sample page is read back, and as it was. -/
theorem Document.parse_serialize_samplePage :
    (∃ markup parsed, (ofForest samplePage).serialize {} = .ok markup ∧
      Document.parse 1 markup = .ok parsed ∧
      parsed.tree = .ok (.node .document (samplePage.asRead {} []) .nil)) ∧
    (samplePage.Verbatim [] → samplePage.asRead {} [] = samplePage) :=
  parse_serialize (validate_ofForest (by decide)) (tree_ofForest samplePage) rfl (by decide)
    (by decide) (by decide)

end HtmlMinify
