import HtmlMinify.Proofs.Steps

/-!
# What reading can build

Every forest that was read could have been written, as far as its nodes go: they are spelled well,
have children only if they can, and no two texts are adjacent.

## Main statement

* `Forest.built_of_parse`: the nodes of a page can stand where they are.
-/

namespace HtmlMinify

open Text

namespace Builder

/-- Trees inside `outer`, given last first, can stand where they are. -/
def TreesBuilt (outer : List String) : List Tree → Prop
  | [] => True
  | (c, below) :: earlier =>
    Forest.NodeBuilt outer c below none ∧ below.Built (c.name :: outer) ∧
      (c.isText = true → earlier.head?.any (·.1.isText) = false) ∧ TreesBuilt outer earlier

/-- The open elements can have content, and can stand where they are with their children so far. -/
def FramesBuilt : List Frame → Prop
  | [] => True
  | frame :: outer =>
    (frame.content.isElement = true ∧ frame.content.isLeafElement = false ∧
        frame.content.Spelled) ∧
      TreesBuilt (frame.content.name :: outer.map (·.content.name)) frame.done ∧ FramesBuilt outer

/-- All nodes so far can stand where they are. -/
structure Built (b : Builder) : Prop where
  frames : FramesBuilt b.frames
  done : TreesBuilt [] b.done

/-- Trees that can stand where they are, as a forest. -/
theorem TreesBuilt.built {outer : List String} {trees : List Tree} (h : TreesBuilt outer trees)
    {after : Forest Content} (hafter : after.Built outer)
    (hapart : trees.head?.any (·.1.isText) = true → after.head?.any (·.isText) = false) :
    (Forest.prependReversed trees after).Built outer := by
  induction trees generalizing after with
  | nil => exact hafter
  | cons tree earlier ih =>
    obtain ⟨c, below⟩ := tree
    obtain ⟨hnode, hbelow, hearlier, htrees⟩ := h
    refine ih htrees ⟨?_, hbelow, hafter⟩ fun htext => ?_
    · exact { hnode with apart := fun hc => hapart (by simpa using hc) }
    · rw [Forest.head?, Option.any_some, Bool.eq_false_iff]
      intro hc
      rw [hearlier hc] at htext
      cases htext

/-- Changing the innermost children keeps the nodes where they can stand, if it does so in them. -/
theorem Built.onChildren {b : Builder} (h : b.Built) {change : List Tree → List Tree}
    (hchange : TreesBuilt b.openTags b.children → TreesBuilt b.openTags (change b.children)) :
    (b.onChildren change).Built := by
  obtain ⟨frames, done, quirks, decided⟩ := b
  cases frames with
  | nil => exact ⟨trivial, hchange h.done⟩
  | cons frame outer =>
    obtain ⟨hcontent, htrees, houter⟩ := h.frames
    exact ⟨⟨hcontent, hchange htrees, houter⟩, h.done⟩

theorem Built.observe {b : Builder} (h : b.Built) (token : Token) : (b.observe token).Built := by
  have hbare : Built b.bare := ⟨h.frames, h.done⟩
  rw [← bare_observe token] at hbare
  exact ⟨hbare.frames, hbare.done⟩

/-- A text joins a text at the end, so that no two of them are adjacent. -/
theorem Built.addText {b : Builder} (h : b.Built) {value : String} (hvalue : value ≠ "") :
    (b.addText value).Built := by
  refine (h.observe _).onChildren fun htrees => ?_
  have hleaf : (Content.leaf .text value).Spelled := hvalue
  cases hchildren : (b.observe (.text value)).children with
  | nil => exact ⟨nodeBuilt_leaf hleaf, trivial, fun _ => rfl, trivial⟩
  | cons tree earlier =>
    obtain ⟨last, below⟩ := tree
    rw [hchildren] at htrees
    obtain ⟨hnode, hbelow, hearlier, hothers⟩ := htrees
    by_cases htext : last.isText = true
    · rw [joinText, if_pos htext]
      have hkind : last.kind = .text := by simpa [Content.isText] using htext
      have hspelled : Content.Spelled { last with value := last.value ++ value } := by
        rw [Content.Spelled, hkind]
        intro hempty
        exact hvalue (String.append_eq_empty_iff.mp hempty).2
      exact ⟨{ hnode with spelled := hspelled }, hbelow, hearlier, hothers⟩
    · rw [joinText, if_neg htext]
      exact ⟨nodeBuilt_leaf hleaf, trivial, fun _ => by simpa using htext,
        hnode, hbelow, hearlier, hothers⟩

/-- A node that can stand where it is inserted leaves a builder built. -/
theorem Built.insert {b : Builder} (h : b.Built) {c : Content} {below : Forest Content}
    (htext : c.isText = false) (hnode : Forest.NodeBuilt b.openTags c below none)
    (hbelow : below.Built (c.name :: b.openTags)) : (b.insert (c, below)).Built := by
  refine h.onChildren fun htrees => ⟨hnode, hbelow, fun hc => ?_, htrees⟩
  rw [htext] at hc
  cases hc

/-- Ending elements leaves a builder built: what they hold is in its place already. -/
theorem Built.close {b : Builder} (h : b.Built) (n : Nat) : (b.close n).Built := by
  induction n generalizing b with
  | zero => exact h
  | succ n ih =>
    rw [Builder.close]
    cases hframes : b.frames with
    | nil => exact h
    | cons frame outer =>
      obtain ⟨hframe, hdone⟩ := h
      rw [hframes] at hframe
      obtain ⟨⟨helement, hleaf, hspelled⟩, htrees, houter⟩ := hframe
      have hkind : frame.content.kind = .element := by simpa [Content.isElement] using helement
      have hinside : Built { b with frames := outer } := ⟨houter, hdone⟩
      refine ih (hinside.insert (by simp [Content.isText, hkind]) ?_ ?_)
      · refine ⟨hspelled, fun hor => ?_, fun _ hself => ?_, fun _ => rfl⟩
        · rw [helement, hleaf] at hor
          simp at hor
        · rw [Content.isLeafElement, hself] at hleaf
          cases hleaf
      · exact htrees.built trivial fun _ => rfl

/-- An element that is opened leaves a builder built, for it holds nothing yet. -/
theorem Built.opened {b : Builder} (h : b.Built) {c : Content} (helement : c.isElement = true)
    (hleaf : c.isLeafElement = false) (hspelled : c.Spelled) : (b.opened c).Built :=
  ⟨⟨⟨helement, hleaf, hspelled⟩, trivial, h.frames⟩, h.done⟩

/-- Every token leaves the nodes where they can stand. -/
theorem Takes.built {b b' : Builder} (htake : b.Takes b') (h : b.Built) : b'.Built := by
  cases htake with
  | text value hvalue => exact h.addText hvalue
  | close token n => exact (h.observe token).close n
  | insert token n c htext hbuilt =>
    refine ((h.observe token).close n).insert htext ?_ trivial
    rwa [openTags_close, openTags_observe]
  | opened token n c helement hleaf hspelled =>
    exact ((h.observe token).close n).opened helement hleaf hspelled

/-- **So does any number of tokens.** -/
theorem Reaches.built {b b' : Builder} (hreaches : b.Reaches b') (h : b.Built) : b'.Built :=
  hreaches.preserves (fun _ _ htake => htake.built) h

end Builder

/-- **The nodes of a page can stand where they are.** -/
theorem Forest.built_of_parse {maxDepth : Nat} {markup : String} {f : Forest Content}
    (h : Forest.parse maxDepth markup = .ok f) : f.Built [] := by
  rw [Forest.parse] at h
  cases hrun : Builder.run maxDepth {} none markup.toList with
  | error e =>
    rw [hrun] at h
    cases h
  | ok final =>
    rw [hrun] at h
    cases h
    have hfinal : final.Built := (Builder.reaches_of_run hrun).built ⟨trivial, trivial⟩
    exact (hfinal.close _).done.built trivial fun _ => rfl

end HtmlMinify
