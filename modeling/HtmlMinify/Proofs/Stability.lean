import HtmlMinify.Proofs.Pipeline
import HtmlMinify.Url.Parse

/-!
# Passes settle what they work on

A kind of work rests on a family if it would change nothing there. It rests on a family that it has
just made, and none of the passes that come later in the order gives it work again: comments are
removed before texts change, texts are collapsed before they are trimmed, and trimmed before blank
ones go, and rules on attributes see elements only. So all passes of a run rest at its end, and the
same run does nothing a second time.

## Main statements

* `Document.Makes.restsOn`: work rests on what it has made.
* `Document.RestsOn.later`: work rests after the pass that comes later in the order.
* `Settings.run_idempotent`: a second run changes nothing and counts nothing.
-/

namespace HtmlMinify

open Siblings Whitespace

/-- Collapsing empties no text. -/
theorem Text.isEmpty_collapse (s : String) : (collapse s).isEmpty = s.isEmpty := by
  rw [Bool.eq_iff_iff, String.isEmpty_iff, String.isEmpty_iff, ← String.toList_eq_nil_iff,
    ← String.toList_eq_nil_iff, collapse, String.toList_ofList]
  cases s.toList with
  | nil => rfl
  | cons c cs =>
    rw [collapseFrom]
    split <;> simp

/-! ## Texts stay apart -/

namespace Siblings

/-- Texts are apart if texts stand in the same places. -/
theorem apart_of_map_isText {l l' : List Content} (h : l'.map (·.isText) = l.map (·.isText))
    (hl : l.IsChain fun a b => a.isText = false ∨ b.isText = false) :
    l'.IsChain fun a b => a.isText = false ∨ b.isText = false := by
  have hmap : ∀ l : List Content, (l.IsChain fun a b => a.isText = false ∨ b.isText = false) ↔
      (l.map (·.isText)).IsChain fun a b => a = false ∨ b = false := by
    intro l
    rw [List.isChain_map]
  rw [hmap] at hl ⊢
  rwa [h]

/-- Texts stay apart if only texts go. -/
theorem apart_filter {l : List Content}
    (hl : l.IsChain fun a b => a.isText = false ∨ b.isText = false) {keep : Content → Bool}
    (hkeep : ∀ c, c.isText = false → keep c = true) :
    (l.filter keep).IsChain fun a b => a.isText = false ∨ b.isText = false := by
  induction l with
  | nil => exact .nil
  | cons c l ih =>
    obtain ⟨hnext, hrest⟩ := List.isChain_cons.mp hl
    rw [List.filter_cons]
    split
    · refine (ih hrest).cons fun d hd => ?_
      cases l with
      | nil => cases hd
      | cons e l =>
        -- What follows a text is no text, and so it stays.
        rcases hnext e rfl with hc | he
        · exact .inl hc
        · rw [List.filter_cons, if_pos (hkeep e he)] at hd
          cases hd
          exact .inr he
    · exact ih hrest

end Siblings

/-- Whether siblings are trimmed depends on the kind and the name of their parent. -/
theorem Whitespace.Trimmed.congr {parent parent' : Content} {l : List Content}
    (h : Trimmed parent none l) (halike : parent.Alike parent') : Trimmed parent' none l := by
  have hedge : blockEdge none parent' = blockEdge none parent := halike.isBlock_eq
  have hmap := h.map (g := id) halike hedge (fun c _ => .refl c) fun _ _ _ _ _ htrimmed => htrimmed
  rwa [List.map_id] at hmap

namespace Document

open Pass Edit

variable {fam fam' : Family} {w : Work}

/-- Collapsed siblings are still joined. -/
theorem join_collapsed (h : fam.Tidy) : join none (collapsed fam) = collapsed fam := by
  rw [collapsed]
  split
  · refine join_of_joined ⟨fun c hc htext => ?_, apart_of_map_isText ?_ h.joined.apart⟩
    · obtain ⟨d, hd, rfl⟩ := List.mem_map.mp hc
      rw [(alike_collapsed d).isText_eq] at htext
      rw [Whitespace.collapsed, if_pos htext, Text.isEmpty_collapse, h.joined.filled d hd htext]
    · rw [List.map_map]
      exact List.map_congr_left fun c _ => (alike_collapsed c).isText_eq
  · exact join_of_joined h.joined

/-- Siblings without blank texts are still joined. -/
theorem join_unblanked (h : fam.Tidy) : join none (unblanked fam) = unblanked fam := by
  rw [unblanked]
  split
  · refine join_of_joined ⟨fun c hc => h.joined.filled c (List.mem_filter.mp hc).1, ?_⟩
    refine apart_filter h.joined.apart fun c hc => ?_
    rw [Content.isBlankText, hc]
    rfl
  · exact join_of_joined h.joined

/-- Rules leave texts. -/
theorem ruled_of_isText {rule : Content → AttributeRule.Result} {c : Content}
    (h : c.isText = true) : ruled rule c = c := by
  rw [Content.isText, decide_eq_true_eq] at h
  rw [ruled, Content.isElement, h]
  rfl

/-- Rules change attributes only. -/
theorem alike_ruled (rule : Content → AttributeRule.Result) (c : Content) :
    c.Alike (ruled rule c) := by
  rw [ruled]
  split
  · exact ⟨rfl, rfl⟩
  · exact .refl c

/-- Siblings with a rule applied are still joined. -/
theorem join_ruledIn (h : fam.Tidy) (rule : Content → AttributeRule.Result) :
    join none (ruledIn rule fam) = ruledIn rule fam := by
  refine join_of_joined ⟨fun c hc htext => ?_, apart_of_map_isText ?_ h.joined.apart⟩
  · obtain ⟨d, hd, rfl⟩ := List.mem_map.mp hc
    rw [(alike_ruled rule d).isText_eq] at htext
    rw [ruled_of_isText htext, h.joined.filled d hd htext]
  · rw [ruledIn, List.map_map]
    exact List.map_congr_left fun c _ => (alike_ruled rule c).isText_eq

/-- Trimmed siblings are joined but for texts that are empty now. -/
theorem join_trimmedIn (h : fam.Tidy) : join none (trimmedIn fam) =
    (trimmedIn fam).filter fun c => !(c.isText && c.value.isEmpty) :=
  join_of_apart (apart_of_map_isText (map_isText_trimmedSiblings ..) h.joined.apart)

/-! ## Work that rests -/

/-- The work would change nothing in the family. -/
def RestsOn : Work → Family → Prop
  | .comments, fam => Comments.Settled false fam.contents
  | .collapse, fam => fam.free = true → ∀ c ∈ fam.contents, c.isText = true →
      Text.collapse c.value = c.value
  | .trim, fam => fam.free = true → Trimmed fam.content none fam.contents
  | .blanks, fam => fam.free = true → ∀ c ∈ fam.contents, c.isBlankText = false
  | .rule r, fam => ∀ c ∈ fam.contents, c.isElement = true → r.Rests c
  | .nothing, _ => True

/-- **Work that rests on all families changes nothing.** -/
theorem Stands.apply_edit_of_restsOn {doc : Document} {root : NodeId} {f : NumberedForest}
    (h : doc.Stands root f) (hsound : Sound root f)
    (hrests : ∀ fam ∈ familiesOf root f, RestsOn w fam) : w.edit.apply doc = (.ok 0, doc) := by
  cases w with
  | comments => exact h.apply_removeComments_of_settled hrests
  | collapse => exact h.apply_collapseAll_of_collapsed hrests
  | trim => exact h.apply_trimAll_of_trimmed hrests
  | blanks => exact h.apply_removeBlank_of_filled hrests
  | rule r =>
    exact h.apply_onElements_of_keep fun fam hfam c hc helement =>
      AttributeRule.Rule.run_of_rests (hsound.distinct_of_mem hfam hc helement)
        (hrests fam hfam c hc helement)
  | nothing => rfl

/-- **Work rests on what it has made.** -/
theorem Makes.restsOn (h : Makes w fam fam') (htidy : fam.Tidy)
    (hdistinct : ∀ c ∈ fam.contents, c.isElement = true → c.attributes.Distinct) :
    RestsOn w fam' := by
  have hcontents := h.contents_eq
  cases w with
  | comments =>
    rw [RestsOn, hcontents]
    exact Comments.settled_join_kept (by simp) (by simp) htidy.joined.filled false
  | collapse =>
    intro hfree c hc htext
    rw [Work.left, join_collapsed htidy, collapsed, if_pos (h.free_eq ▸ hfree)] at hcontents
    rw [hcontents] at hc
    obtain ⟨d, hd, rfl⟩ := List.mem_map.mp hc
    rw [(alike_collapsed d).isText_eq] at htext
    rw [Whitespace.collapsed, if_pos htext]
    exact Text.collapse_collapse d.value
  | trim =>
    intro hfree
    rw [Work.left, trimmed, if_pos (h.free_eq ▸ hfree), join_trimmedIn htidy] at hcontents
    have hhere : Trimmed fam.content none fam'.contents := by
      rw [hcontents]
      -- Texts that were trimmed to nothing are dropped; the others keep their neighbours.
      refine (trimmed_trimmedSiblings rfl fam.contents).filter ?_ fun c hc => by simp [hc]
      exact apart_of_map_isText (map_isText_trimmedSiblings ..) htidy.joined.apart
    exact hhere.congr h.alike
  | blanks =>
    intro hfree c hc
    rw [Work.left, join_unblanked htidy, unblanked, if_pos (h.free_eq ▸ hfree)] at hcontents
    rw [hcontents, List.mem_filter, Bool.not_eq_true'] at hc
    exact hc.2
  | rule r =>
    intro c hc helement
    rw [Work.left, join_ruledIn htidy, ruledIn] at hcontents
    rw [hcontents] at hc
    obtain ⟨d, hd, rfl⟩ := List.mem_map.mp hc
    rw [(alike_ruled r.run d).isElement_eq] at helement
    rw [ruled, if_pos helement]
    exact r.rests_run (hdistinct d hd helement)
  | nothing => trivial

/-! ## Work that rests after later passes -/

/-- Only removing comments takes anything but blank text out, or closes a reference. -/
theorem Makes.tidies (h : Makes w fam fam') (htidy : fam.Tidy) (hw : w ≠ .comments) :
    Comments.Tidies fam.contents fam'.contents := by
  have hrefl : Comments.Tidies fam.contents fam.contents := by
    have := Comments.tidies_map (g := id) (l := fam.contents) fun c _ =>
      ⟨.refl c, fun _ => rfl, fun _ => ⟨rfl, id, id⟩⟩
    rwa [List.map_id] at this
  have hcontents := h.contents_eq
  cases w with
  | comments => exact absurd rfl hw
  | collapse =>
    rw [hcontents, Work.left, join_collapsed htidy, collapsed]
    split
    · refine Comments.tidies_map fun c _ => ⟨alike_collapsed c, fun hc => ?_, fun hc => ?_⟩
      · rw [Whitespace.collapsed, hc]
        rfl
      · rw [Whitespace.collapsed, if_pos hc]
        exact ⟨Text.isBlank_collapse c.value, Comments.keepsReferences_collapse.opens c.value,
          Comments.keepsReferences_collapse.goesOn c.value⟩
    · exact hrefl
  | trim =>
    rw [hcontents, Work.left, trimmed]
    split
    · rw [join_trimmedIn htidy]
      exact tidies_trimmedSiblings fam.content none fam.contents
    · rwa [join_of_joined htidy.joined]
  | blanks =>
    rw [hcontents, Work.left, join_unblanked htidy, unblanked]
    split
    · exact Comments.tidies_filter fun c _ hc => by simpa using hc
    · exact hrefl
  | rule r =>
    rw [hcontents, Work.left, join_ruledIn htidy]
    refine Comments.tidies_map fun c _ => ⟨alike_ruled r.run c, fun _ => ?_, fun hc => ?_⟩
    · rw [ruled]
      split <;> rfl
    · rw [ruled_of_isText hc]
      exact ⟨rfl, id, id⟩
  | nothing =>
    rw [hcontents, Work.left, join_of_joined htidy.joined]
    exact hrefl

/-- Trimming changes texts only. -/
theorem exists_of_mem_trimmedSiblings {parent : Content} {before : Option Content}
    {l : List Content} {c : Content} (h : c ∈ trimmedSiblings parent before l) :
    ∃ d ∈ l, c.isText = d.isText ∧ (d.isText = false → c = d) ∧ (d.isText = true →
      ∃ before after, c.value = Whitespace.trimmed parent before after d.value) := by
  induction l generalizing before with
  | nil => cases h
  | cons d l ih =>
    rw [trimmedSiblings, List.mem_cons] at h
    rcases h with rfl | h
    · refine ⟨d, List.mem_cons_self, ?_⟩
      cases hd : d.isText with
      | true => exact ⟨hd, by simp, fun _ => ⟨_, _, rfl⟩⟩
      | false => exact ⟨hd, fun _ => rfl, by simp⟩
    · obtain ⟨d, hd, hcomes⟩ := ih h
      exact ⟨d, List.mem_cons_of_mem _ hd, hcomes⟩

/-- Collapsed texts stay so when they are trimmed, or blank ones go. -/
theorem Makes.restsOn_collapse (h : Makes w fam fam') (htidy : fam.Tidy)
    (hw : w ≠ .comments) (hw' : w ≠ .collapse) (hrests : RestsOn .collapse fam) :
    RestsOn .collapse fam' := by
  intro hfree c hc htext
  have hfree' : fam.free = true := h.free_eq ▸ hfree
  have hcontents := h.contents_eq
  cases w with
  | comments => exact absurd rfl hw
  | collapse => exact absurd rfl hw'
  | trim =>
    rw [hcontents, Work.left, trimmed, if_pos hfree', join_trimmedIn htidy] at hc
    obtain ⟨d, hd, hsame, -, hchanged⟩ :=
      exists_of_mem_trimmedSiblings (List.mem_filter.mp hc).1
    rw [hsame] at htext
    obtain ⟨_, _, hvalue⟩ := hchanged htext
    rw [hvalue]
    exact collapse_trimmed (hrests hfree' d hd htext)
  | blanks =>
    rw [hcontents, Work.left, join_unblanked htidy, unblanked, if_pos hfree'] at hc
    exact hrests hfree' c (List.mem_filter.mp hc).1 htext
  | rule r =>
    rw [hcontents, Work.left, join_ruledIn htidy] at hc
    obtain ⟨d, hd, rfl⟩ := List.mem_map.mp hc
    rw [(alike_ruled r.run d).isText_eq] at htext
    rw [ruled_of_isText htext]
    exact hrests hfree' d hd htext
  | nothing =>
    rw [hcontents, Work.left, join_of_joined htidy.joined] at hc
    exact hrests hfree' c hc htext

/-- Trimmed texts stay so when blank ones go: none of them was next to another. -/
theorem Makes.restsOn_trim (h : Makes w fam fam') (htidy : fam.Tidy) (hw : w ≠ .comments)
    (hw' : w ≠ .collapse) (hw'' : w ≠ .trim) (hrests : RestsOn .trim fam) :
    RestsOn .trim fam' := by
  intro hfree
  have hfree' : fam.free = true := h.free_eq ▸ hfree
  have hcontents := h.contents_eq
  cases w with
  | comments => exact absurd rfl hw
  | collapse => exact absurd rfl hw'
  | trim => exact absurd rfl hw''
  | blanks =>
    rw [hcontents, Work.left, join_unblanked htidy, unblanked, if_pos hfree']
    have hleft : Trimmed fam.content none (fam.contents.filter (!·.isBlankText)) :=
      (hrests hfree').filter htidy.joined.apart fun c hc => by simp [Content.isBlankText, hc]
    exact hleft.congr h.alike
  | rule r =>
    rw [hcontents, Work.left, join_ruledIn htidy]
    have hedge : blockEdge none fam'.content = blockEdge none fam.content := h.alike.isBlock_eq
    refine (hrests hfree').map h.alike hedge (fun c _ => alike_ruled r.run c) ?_
    intro c _ htext _ _ htrimmed
    rwa [ruled_of_isText htext]
  | nothing =>
    rw [hcontents, Work.left, join_of_joined htidy.joined]
    exact (hrests hfree').congr h.alike

/-- No rule on attributes makes a text blank. -/
theorem Makes.restsOn_blanks {read? : String → Option Url} {ctx : Context} {pass : Pass}
    (h : Makes (pass.work read? ctx) fam fam') (hbefore : removeBlankTexts.Before pass)
    (htidy : fam.Tidy) (hrests : RestsOn .blanks fam) : RestsOn .blanks fam' := by
  have hcontents := h.contents_eq
  have hnothing : pass.work read? ctx = .nothing := by
    cases pass with
    | omitQuotes | omitEndTags => rfl
    | _ => exact absurd hbefore (by decide)
  rw [hnothing, Work.left, join_of_joined htidy.joined] at hcontents
  rw [RestsOn, hcontents, h.free_eq]
  exact hrests

/-- Only rules change elements. -/
theorem Makes.mem_of_isElement (h : Makes w fam fam') (hw : ∀ r, w ≠ .rule r) {c : Content}
    (hc : c ∈ fam'.contents) (helement : c.isElement = true) : c ∈ fam.contents := by
  have htext : c.isText = false := by
    rw [Content.isElement, decide_eq_true_eq] at helement
    rw [Content.isText, helement]
    rfl
  rw [h.contents_eq] at hc
  have hleft := mem_join_of_not_text (by simp) hc htext
  cases w with
  | comments => exact (Comments.sublist_kept false _).subset hleft
  | collapse =>
    rw [Work.left, collapsed] at hleft
    split at hleft
    · obtain ⟨d, hd, rfl⟩ := List.mem_map.mp hleft
      rw [(alike_collapsed d).isText_eq] at htext
      rwa [Whitespace.collapsed, htext]
    · exact hleft
  | trim =>
    rw [Work.left, trimmed] at hleft
    split at hleft
    · obtain ⟨d, hd, hsame, hstays, -⟩ := exists_of_mem_trimmedSiblings hleft
      rwa [hstays (hsame ▸ htext)]
    · exact hleft
  | blanks =>
    rw [Work.left, unblanked] at hleft
    split at hleft
    · exact (List.mem_filter.mp hleft).1
    · exact hleft
  | rule r => exact absurd rfl (hw r)
  | nothing => exact hleft

/-- The passes on comments and texts. -/
def textPasses : List Pass :=
  [removeComments, collapseWhitespace, trimAroundTags, removeBlankTexts]

variable {read? : String → Option Url} {ctx : Context} {pass : Pass}

/-- The passes on comments and texts are known by their work. -/
theorem eq_of_work_eq (other : Pass) (hother : other ∈ textPasses)
    (h : pass.work read? ctx = other.work read? ctx) : pass = other := by
  simp only [textPasses, List.mem_cons, List.not_mem_nil, or_false] at hother
  cases hrule : pass.rule? read? ctx with
  | some r =>
    rw [work_of_rule? hrule] at h
    rcases hother with rfl | rfl | rfl | rfl <;> cases h
  | none =>
    rcases hother with rfl | rfl | rfl | rfl <;> cases pass <;>
      first | rfl | (simp only [work, hrule] at h; cases h)

/-- The work of a later pass is not that of an earlier one. -/
theorem work_ne_of_before {later : Pass} (hbefore : pass.Before later) (other : Pass)
    (hother : other ∈ textPasses) (hnot : ¬ pass.Before other) :
    later.work read? ctx ≠ other.work read? ctx := by
  intro heq
  rw [eq_of_work_eq other hother heq] at hbefore
  exact hnot hbefore

theorem rule?_of_work {r : AttributeRule.Rule} (h : pass.work read? ctx = .rule r) :
    pass.rule? read? ctx = some r := by
  cases hrule : pass.rule? read? ctx with
  | some r' =>
    rw [work_of_rule? hrule] at h
    cases h
    rfl
  | none => cases pass <;> simp only [work, hrule] at h <;> cases h

/-- **Work rests after the pass that comes later in the order.** -/
theorem RestsOn.later {later : Pass} (hbefore : pass.Before later)
    (h : RestsOn (pass.work read? ctx) fam) (hmakes : Makes (later.work read? ctx) fam fam')
    (htidy : fam.Tidy)
    (hdistinct : ∀ c ∈ fam.contents, c.isElement = true → c.attributes.Distinct) :
    RestsOn (pass.work read? ctx) fam' := by
  cases hwork : pass.work read? ctx with
  | comments =>
    rw [hwork] at h
    -- Four kinds of work belong to one pass each, so the order tells what comes later.
    obtain rfl := eq_of_work_eq removeComments (by decide) hwork
    exact h.tidies (hmakes.tidies htidy
      (work_ne_of_before hbefore removeComments (by decide) (by decide))) id
  | collapse =>
    rw [hwork] at h
    obtain rfl := eq_of_work_eq collapseWhitespace (by decide) hwork
    exact hmakes.restsOn_collapse htidy
      (work_ne_of_before hbefore removeComments (by decide) (by decide))
      (work_ne_of_before hbefore collapseWhitespace (by decide) (by decide)) h
  | trim =>
    rw [hwork] at h
    obtain rfl := eq_of_work_eq trimAroundTags (by decide) hwork
    exact hmakes.restsOn_trim htidy
      (work_ne_of_before hbefore removeComments (by decide) (by decide))
      (work_ne_of_before hbefore collapseWhitespace (by decide) (by decide))
      (work_ne_of_before hbefore trimAroundTags (by decide) (by decide)) h
  | blanks =>
    rw [hwork] at h
    obtain rfl := eq_of_work_eq removeBlankTexts (by decide) hwork
    exact hmakes.restsOn_blanks hbefore htidy h
  | rule r =>
    rw [hwork] at h
    intro c hc helement
    -- Of the later passes only rules change elements at all.
    cases hlater : later.rule? read? ctx with
    | some r' =>
      rw [hmakes.contents_eq, work_of_rule? hlater, Work.left, join_ruledIn htidy] at hc
      obtain ⟨d, hd, rfl⟩ := List.mem_map.mp hc
      rw [(alike_ruled r'.run d).isElement_eq] at helement
      rw [ruled, if_pos helement]
      exact rests_later hbefore (rule?_of_work hwork) hlater (hdistinct d hd helement)
        (h d hd helement)
    | none =>
      have hnot : ∀ r', later.work read? ctx ≠ .rule r' := by
        intro r' heq
        rw [rule?_of_work heq] at hlater
        cases hlater
      exact h c (hmakes.mem_of_isElement hnot hc helement) helement
  | nothing => trivial

/-! ## Runs -/

variable {root : NodeId} {f f' : NumberedForest}

/-- **All passes of a run rest at its end**, and those that rested before it. -/
theorem Leads.restsOn {passes : List Pass} (hpairwise : passes.Pairwise Before)
    (h : Leads root (passes.map (Pass.work read? ctx)) f f') (earlier : List Pass)
    (hbefore : ∀ p ∈ earlier, ∀ q ∈ passes, p.Before q)
    (hrests : ∀ p ∈ earlier, ∀ fam ∈ familiesOf root f, RestsOn (p.work read? ctx) fam) :
    ∀ p ∈ earlier ++ passes, ∀ fam ∈ familiesOf root f', RestsOn (p.work read? ctx) fam := by
  induction passes generalizing f earlier with
  | nil =>
    cases h
    rwa [List.append_nil]
  | cons pass passes ih =>
    rw [List.map_cons] at h
    cases h with
    | cons hstep hleads =>
      obtain ⟨hlater, hpairwise⟩ := List.pairwise_cons.mp hpairwise
      -- The pass itself joins those that rest.
      have hnext := ih hpairwise hleads (earlier ++ [pass]) ?_ ?_
      · rwa [List.append_assoc] at hnext
      · intro p hp q hq
        rcases List.mem_append.mp hp with hp | hp
        · exact hbefore p hp q (List.mem_cons_of_mem _ hq)
        · rw [List.mem_singleton.mp hp]
          exact hlater q hq
      · intro p hp fam' hfam'
        obtain ⟨fam, hfam, hmakes⟩ := hstep.exists_family hfam'
        have htidy := hstep.before fam hfam
        have hdistinct := fun c (hc : c ∈ fam.contents) =>
          hstep.before.sound.distinct_of_mem hfam hc
        rcases List.mem_append.mp hp with hp | hp
        · exact (hrests p hp fam hfam).later (hbefore p hp pass List.mem_cons_self) hmakes htidy
            hdistinct
        · rw [List.mem_singleton.mp hp]
          exact hmakes.restsOn htidy hdistinct

/-- Passes that rest on a tidy tree leave it as it is. -/
theorem Stands.succeeds_of_restsOn {doc : Document} {passes : List Pass}
    (h : doc.Stands root f) (htidy : Tidy root f)
    (hrests : ∀ p ∈ passes, ∀ fam ∈ familiesOf root f, RestsOn (p.work read? ctx) fam) :
    Run.Succeeds read? ctx passes (List.replicate passes.length (0, 0)) doc doc := by
  induction passes with
  | nil => exact .nil doc
  | cons pass passes ih =>
    have hpass := h.apply_edit_of_restsOn htidy.sound (hrests pass List.mem_cons_self)
    rw [← apply_eq_edit] at hpass
    have hjoin := h.apply_normalize_of_joined fun fam hfam => (htidy fam hfam).joined
    exact .cons hpass hjoin (h.validate htidy.sound)
      (ih fun p hp => hrests p (List.mem_cons_of_mem _ hp))

end Document

namespace Settings

/-- Passes are run in the order in which they are listed. -/
theorem sublist_activeAmong (s : Settings) (ran passes : List Pass) :
    (s.activeAmong ran passes).Sublist passes := by
  induction passes generalizing ran with
  | nil => exact .slnil
  | cons pass passes ih =>
    rw [activeAmong]
    split
    · exact .cons_cons _ (ih _)
    · exact .cons _ (ih _)

/-- The passes of a run stand in their order. -/
theorem pairwise_active (s : Settings) : s.active.Pairwise Pass.Before :=
  Pass.pairwise_before.sublist (s.sublist_activeAmong [] Pass.all)

/-- **A second run changes nothing.** A run on a page that was read succeeds, and the same run on
what it leaves counts no change and no joined text for any pass, leaves the document as it is, and
asks for the same way of writing. -/
theorem run_idempotent (s : Settings) (read? : String → Option Url) {maxDepth : Nat} {page : String}
    {doc : Document} (h : Document.parse maxDepth page = .ok doc) :
    ∃ counts doc', Run.Succeeds read? s.context s.active counts doc doc' ∧
      (Run.settings read? s).apply doc = (.ok s.writeOptions, doc') ∧
      Run.Succeeds read? s.context s.active (List.replicate s.active.length (0, 0)) doc' doc' ∧
      (Run.settings read? s).apply doc' = (.ok s.writeOptions, doc') := by
  obtain ⟨f, -, hstands, htidy⟩ := Document.exists_stands_of_parse h
  obtain ⟨counts, doc', f', hrun, hstands', htidy', hleads⟩ :=
    hstands.exists_succeeds htidy read? s.context s.active
  have hrests := hleads.restsOn s.pairwise_active [] (by simp) (by simp)
  have hagain := hstands'.succeeds_of_restsOn htidy' hrests
  exact ⟨counts, doc', hrun, hrun.apply_passes {}, hagain, hagain.apply_passes {}⟩

/-- A list with attributes, comments and whitespace that can go; one comment keeps a reference
open. -/
def messyForest : Forest Content :=
  .node (.element "ul" ⟨[⟨"title", ""⟩, ⟨"class", "b a"⟩]⟩ false)
    (.node (.leaf .text " ") .nil <| .node (.leaf .comment " x ") .nil <|
      .node (.leaf .text " ") .nil <|
      .node (.element "li" .empty false)
        (.node (.leaf .text "a &am") .nil <| .node (.leaf .comment "") .nil <|
          .node (.leaf .text "p;  b ") .nil <|
          .node (.element "pre" .empty false)
            (.node (.leaf .text " c  ") .nil <| .node (.leaf .comment "y") .nil <|
              .node (.leaf .text "d") .nil .nil) .nil) .nil) .nil

/-- The list as a page. -/
def messyPage : String :=
  String.ofList (messyForest.markup {} (Doctype.pageQuirks messyForest.roots) [] .endOfPage)

/-- The messy page is read from its markup. -/
theorem parse_messyPage : Document.parse 3 messyPage = .ok (.ofForest messyForest) := by
  rw [Document.parse_eq_map, messyPage, Forest.parse_markup (by decide)
    (Forest.WellNested.nests (by decide) _ _ _) (by decide)]
  rfl

/-- All passes run over the messy page twice, and the second time change nothing. -/
theorem run_idempotent_messyPage :
    Document.parse 3 messyPage = .ok (.ofForest messyForest) ∧
      ∃ counts doc', Run.Succeeds Url.parse? off.withAll.context off.withAll.active counts
          (.ofForest messyForest) doc' ∧
        Run.Succeeds Url.parse? off.withAll.context off.withAll.active
          (List.replicate off.withAll.active.length (0, 0)) doc' doc' := by
  obtain ⟨counts, doc', hrun, -, hagain, -⟩ :=
    run_idempotent off.withAll Url.parse? parse_messyPage
  exact ⟨parse_messyPage, counts, doc', hrun, hagain⟩

end Settings

end HtmlMinify
