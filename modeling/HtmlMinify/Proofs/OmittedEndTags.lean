import HtmlMinify.Proofs.Recovery
import HtmlMinify.Proofs.RoundTrip

/-!
# Leaving out end tags

End tags are left out only where reading puts them back. A document that is read back from its plain
markup is also read back from the markup without them.

How values are quoted decides what can be written and what is read; end tags have no part in that.

## Main statement

* `Document.parse_serialize_omitEndTags`: the same tree is read with and without them.
-/

namespace HtmlMinify

open Text

namespace Forest

variable {options options' : WriteOptions}

/-- What can be written depends on the quotes only. -/
theorem Spelled.congr {f : Forest Content} {outer : List String} (h : f.Spelled options outer)
    (hquotes : options.omitQuotes = options'.omitQuotes) : f.Spelled options' outer := by
  induction f generalizing outer with
  | nil => trivial
  | node c children siblings ihc ihs =>
    obtain ⟨hnode, hchildren, hsiblings⟩ := h
    refine ⟨{ hnode with separate := fun hc => ?_ }, ihc hchildren, ihs hsiblings⟩
    have hseparate := hnode.separate hc
    unfold Attributes.Separate Attribute.writesNoValue at hseparate ⊢
    rwa [← hquotes]

/-- What is read depends on the quotes only. -/
theorem asRead_congr (hquotes : options.omitQuotes = options'.omitQuotes) (f : Forest Content)
    (outer : List String) : f.asRead options outer = f.asRead options' outer := by
  induction f generalizing outer with
  | nil => rfl
  | node c children siblings ihc ihs =>
    have hattributes : c.attributes.asRead options = c.attributes.asRead options' := by
      unfold Attributes.asRead Attribute.asRead
      rw [hquotes]
    rw [asRead, asRead, ihc, ihs, Content.asRead, hattributes]
    rfl

/-- Where no end tag is left out, no start tag ends an element around it. -/
theorem Nests.wellNested (hends : options.omitEndTags = false) {f : Forest Content} {quirks : Bool}
    {outer : List String} {closer : Closer} (h : f.Nests options quirks outer closer false) :
    f.WellNested quirks outer := by
  induction f generalizing outer closer with
  | nil => trivial
  | node c children siblings ihc ihs =>
    obtain ⟨hstart, hchildren, hsiblings⟩ := h
    have hkeeps : c.omitsEnd options quirks outer closer siblings.head? = false := by
      simp [Content.omitsEnd, Content.closer?, hends]
    rw [hkeeps] at hsiblings
    exact ⟨fun hc => hstart hc rfl, ihc hchildren, ihs hsiblings⟩

end Forest

namespace Document

/-- **Leaving out end tags does not change what is read.** A document that passes its check and is
read back, ids aside, from its plain markup is read back, at the same nesting depth, from its markup
without the end tags that can be left out. -/
theorem parse_serialize_omitEndTags {doc parsed : Document} {plain : String} {maxDepth : Nat}
    (hvalid : doc.validate = .ok ()) (hplain : doc.serialize {} = .ok plain)
    (hparse : Document.parse maxDepth plain = .ok parsed) (hsame : parsed.tree = doc.tree) :
    ∃ short reread, doc.serialize { omitEndTags := true } = .ok short ∧
      Document.parse maxDepth short = .ok reread ∧ reread.tree = doc.tree := by
  -- What is read is a forest whose nodes can stand where they are.
  obtain ⟨f, hforest, rfl⟩ : ∃ f, Forest.parse maxDepth plain = .ok f ∧ parsed = ofForest f := by
    rw [Document.parse_eq_map] at hparse
    cases hforest : Forest.parse maxDepth plain with
    | error e =>
      rw [hforest] at hparse
      cases hparse
    | ok f =>
      rw [hforest] at hparse
      cases hparse
      exact ⟨f, rfl, rfl⟩
  have hbuilt := Forest.built_of_parse hforest
  rw [tree_ofForest] at hsame
  obtain ⟨id, below, parent, hid, hshows, rfl, hlevels⟩ :=
    exists_shows_of_validate hvalid hsame.symm rfl hbuilt.kind_ne_document
  -- It is also the forest that was written, so it tells how it was read.
  rw [serialize_of_shows hid hshows rfl hlevels] at hplain
  cases hplain
  have hrecovered := Forest.recovered_of_parse_markup rfl hbuilt hforest
  have hspelled : below.contents.Spelled { omitEndTags := true } [] :=
    hrecovered.spelled.congr rfl
  have hnested := hrecovered.nests.wellNested rfl
  have hreread := Forest.parse_markup hspelled (hnested.nests _ .endOfPage false)
    (by simpa using hrecovered.height (Nat.zero_le _))
  refine ⟨_, ofForest below.contents, serialize_of_shows hid hshows rfl hlevels _, ?_, ?_⟩
  · have hread : below.contents.asRead { omitEndTags := true } [] =
        below.contents.asRead {} [] := Forest.asRead_congr (by rfl) _ _
    rw [Document.parse_eq_map, hreread, hread, hrecovered.asRead]
    rfl
  · rw [tree_ofForest, hsame]

end Document

/-- A list with two items. -/
def sampleList : Forest Content :=
  .node (.element "ul" .empty false)
    (.node (.element "li" .empty false) (.node (.leaf .text "a") .nil .nil) <|
      .node (.element "li" .empty false) (.node (.leaf .text "b") .nil .nil) .nil) .nil

/-- The sample list is read back from markup that leaves out its end tags. -/
theorem Document.parse_serialize_omitEndTags_sampleList :
    ∃ short reread, (ofForest sampleList).serialize { omitEndTags := true } = .ok short ∧
      Document.parse 2 short = .ok reread ∧ reread.tree = (ofForest sampleList).tree := by
  have hparse : Document.parse 2 (String.ofList
      (sampleList.markup {} (Doctype.pageQuirks sampleList.roots) [] .endOfPage)) =
      .ok (ofForest sampleList) := by
    rw [Document.parse_eq_map, Forest.parse_markup (by decide)
      (Forest.WellNested.nests (by decide) _ _ _) (by decide)]
    rfl
  exact parse_serialize_omitEndTags (validate_ofForest (by decide)) (serialize_ofForest sampleList {})
    hparse rfl

example : (Document.ofForest sampleList).serialize { omitEndTags := true } =
    .ok "<ul><li>a<li>b</ul>" := by
  rw [Document.serialize_ofForest]
  decide

end HtmlMinify
