import HtmlMinify.Markup.Write
import Mathlib.Data.List.Infix

/-!
# What a tag does to the open elements

Every tag ends open elements from the innermost outward: what stays open is a suffix of what was
open, so it is known by its length. An element's own end tag ends exactly that element.

The end tags of HTML content come in families, each with a search of its own. `Open.EndSearch` says
what these have in common, and all that is proved about end tags goes by it. Only the end tag of an
option group makes no search.

## Main statements

* `Open.endsUpTo_close`: what a search ends.
* `Open.afterStart_suffix`, `Open.afterEnd_suffix`: what stays open is a suffix.
* `Open.exists_endSearch`, `Open.endsUpTo_afterHtmlEnd_optgroup`: what end tags do.
* `Open.afterEnd_self`: the end tag of the innermost element ends it alone.
* `Closer.afterStart_of_reopens`, `Closer.afterEnd_of_reopens`: what `Closer.reopens` checks by a
  number of elements holds of the elements themselves.
-/

namespace HtmlMinify

open Text

/-- A table holds the names that are listed in lower case. -/
theorem Text.inTable_iff {table : List String} {name : String} :
    inTable table name = true ↔ lower name ∈ table :=
  List.contains_iff_mem

namespace Open

/-! ## Searches -/

/-- Elements end from the innermost outward up to one that is `own`, over no `barrier`, and `left`
stays open. Or nothing ends. -/
def EndsUpTo (own barrier : String → Bool) (tags left : List String) : Prop :=
  left = tags ∨ ∃ inner tag, tags = inner ++ tag :: left ∧ own tag = true ∧
    ∀ e ∈ inner, barrier e = false

namespace EndsUpTo

variable {own own' barrier barrier' : String → Bool} {tags left : List String}

/-- What is left open is what was open outside. -/
theorem suffix (h : EndsUpTo own barrier tags left) : left <:+ tags := by
  rcases h with rfl | ⟨inner, tag, rfl, -, -⟩
  · exact List.suffix_rfl
  · exact (List.suffix_cons tag left).trans (List.suffix_append inner _)

/-- What is ended by its own tags may be more, and what stops the search less. -/
theorem imp (h : EndsUpTo own barrier tags left) (hown : ∀ tag, own tag = true → own' tag = true)
    (hbarrier : ∀ e, barrier' e = true → barrier e = true) : EndsUpTo own' barrier' tags left := by
  refine h.imp_right ?_
  rintro ⟨inner, tag, htags, htag, hinner⟩
  refine ⟨inner, tag, htags, hown tag htag, fun e he => ?_⟩
  rw [Bool.eq_false_iff]
  exact fun hstop => Bool.false_ne_true ((hinner e he).symm.trans (hbarrier e hstop))

end EndsUpTo

/-- What a search finds is a target, with neither a target nor a stop before it. -/
theorem exists_of_closeTo? {target stop : String → Bool} {tags left : List String}
    (h : closeTo? target stop tags = some left) :
    ∃ inner tag, tags = inner ++ tag :: left ∧ target tag = true ∧
      ∀ e ∈ inner, (target e || stop e) = false := by
  induction tags with
  | nil => cases h
  | cons first outer ih =>
    rw [closeTo?] at h
    split at h
    · next htarget =>
      cases h
      exact ⟨[], first, rfl, htarget, List.forall_mem_nil _⟩
    · next htarget =>
      split at h
      · cases h
      · next hstop =>
        obtain ⟨inner, tag, rfl, htag, hinner⟩ := ih h
        refine ⟨first :: inner, tag, rfl, htag, List.forall_mem_cons.mpr ⟨?_, hinner⟩⟩
        rw [Bool.or_eq_false_iff]
        exact ⟨Bool.eq_false_iff.mpr htarget, Bool.eq_false_iff.mpr hstop⟩

/-- What a search leaves open was open outside. -/
theorem closeTo?_suffix {target stop : String → Bool} {tags left : List String}
    (h : closeTo? target stop tags = some left) : left <:+ tags :=
  EndsUpTo.suffix (.inr (exists_of_closeTo? h))

/-- **What a search ends.** -/
theorem endsUpTo_close (target stop : String → Bool) (tags : List String) :
    EndsUpTo target (fun e => target e || stop e) tags (close target stop tags) := by
  unfold close
  cases h : closeTo? target stop tags with
  | none => exact .inl rfl
  | some left => exact .inr (exists_of_closeTo? h)

theorem close_suffix (target stop : String → Bool) (tags : List String) :
    close target stop tags <:+ tags :=
  (endsUpTo_close target stop tags).suffix

/-- A search that finds its target at once ends one element. -/
theorem close_cons_of_target {target stop : String → Bool} {tag : String}
    (h : target tag = true) (outer : List String) : close target stop (tag :: outer) = outer := by
  rw [close, closeTo?, if_pos h, Option.getD_some]

/-! ## Start tags -/

/-- What several searches leave open was open outside. -/
theorem foldl_close_suffix (rules : List ImpliedEnd) (tags : List String) :
    rules.foldl (fun left rule => close rule.target rule.stop left) tags <:+ tags := by
  induction rules generalizing tags with
  | nil => exact List.suffix_rfl
  | cons rule rules ih => exact (ih _).trans (close_suffix rule.target rule.stop tags)

/-- What can be done before each of the searches or after it can be done before or after all. -/
theorem foldl_close_comm {rules : List ImpliedEnd} (change : List String → List String)
    (h : ∀ rule ∈ rules, ∀ tags, close rule.target rule.stop (change tags) =
      change (close rule.target rule.stop tags)) (tags : List String) :
    rules.foldl (fun left rule => close rule.target rule.stop left) (change tags) =
      change (rules.foldl (fun left rule => close rule.target rule.stop left) tags) := by
  induction rules generalizing tags with
  | nil => rfl
  | cons rule rules ih =>
    obtain ⟨hrule, hrules⟩ := List.forall_mem_cons.mp h
    rw [List.foldl_cons, List.foldl_cons, hrule, ih hrules]

/-- **A start tag leaves a suffix open.** -/
theorem afterStart_suffix (name : String) (quirks : Bool) (tags : List String) :
    afterStart name quirks tags <:+ tags := by
  unfold afterStart
  split
  · exact List.suffix_rfl
  · exact foldl_close_suffix _ _

/-- A start tag that ends an element is not in foreign content, and does not begin any. -/
theorem not_foreign_of_afterStart {name : String} {quirks : Bool} {tags : List String}
    (h : afterStart name quirks tags ≠ tags) :
    Tag.isForeignRoot name = false ∧ inForeign tags = false := by
  unfold afterStart at h
  split at h
  · exact absurd rfl h
  · next hforeign => simpa using hforeign

theorem inForeign_append (inner outer : List String) :
    inForeign (inner ++ outer) = (inForeign inner || inForeign outer) :=
  List.any_append

theorem inForeign_cons (name : String) (outer : List String) :
    inForeign (name :: outer) = (Tag.isForeignRoot name || inForeign outer) :=
  List.any_cons

/-! ## End tags -/

/-- The cells of a table and its caption. -/
def cells : List String :=
  ["caption", "td", "th"]

/-- The search of the end tag `name`, in lower case: for its own element, or any heading, up to a tag
that `stops` it. -/
structure EndSearch (name : String) (targets : List String) (stops : String → Bool) : Prop where
  eq_close : ∀ tags, afterHtmlEnd name tags = close (inTable targets) (stops ∘ lower) tags
  own : targets = [name] ∨ targets = headings ∧ name ∈ headings
  scope : ∀ tag ∈ tableScope, stops tag = true
  cell : name ∉ tableEndTags → ∀ tag ∈ cells, stops tag = true
  special : name ∉ ["option", "select"] → ∀ tag, stops tag = true → tag ∈ special

namespace EndSearch

variable {name : String} {targets : List String}

/-- The search of an end tag finds its own element. -/
theorem mem_targets {stops : String → Bool} (h : EndSearch name targets stops) :
    name ∈ targets := by
  rcases h.own with htargets | ⟨htargets, hheading⟩
  · exact htargets ▸ List.mem_singleton_self name
  · exact htargets ▸ hheading

/-- A search that stops at the tags of a table. -/
theorem of_table {stops : List String}
    (hends : ∀ tags, afterHtmlEnd name tags = close (inTable targets) (inTable stops) tags)
    (hown : targets = [name] ∨ targets = headings ∧ name ∈ headings) (hscope : tableScope ⊆ stops)
    (hcell : name ∉ tableEndTags → cells ⊆ stops) (hspecial : stops ⊆ Open.special) :
    EndSearch name targets stops.contains where
  eq_close := hends
  own := hown
  scope _ htag := List.contains_iff_mem.mpr (hscope htag)
  cell hname _ htag := List.contains_iff_mem.mpr (hcell hname htag)
  special _ _ htag := hspecial (List.contains_iff_mem.mp htag)

/-- An end tag that stays within the default scope is a search. -/
theorem of_defaultScope
    (hends : ∀ tags, afterHtmlEnd name tags = close (inTable targets) (inTable defaultScope) tags)
    (hown : targets = [name] ∨ targets = headings ∧ name ∈ headings) :
    EndSearch name targets defaultScope.contains :=
  of_table hends hown (List.Sublist.subset (by decide)) (fun _ => List.Sublist.subset (by decide))
    (List.Sublist.subset (by decide))

end EndSearch

/-- The end tags of most elements look no further than the default scope. -/
theorem afterHtmlEnd_of_not_mem {name : String}
    (h : name ∉ ["p", "li", "option", "optgroup", "select"]) (tags : List String) :
    afterHtmlEnd name tags =
      if headings.contains name then close (inTable headings) (inTable defaultScope) tags
      else if scopedEndTags.contains name || formatting.contains name then
        close (inTable [name]) (inTable defaultScope) tags
      else if tableEndTags.contains name then close (inTable [name]) (inTable tableScope) tags
      else close (inTable [name]) (inTable special) tags := by
  unfold afterHtmlEnd
  split
  iterate 5 exact absurd (by decide) h
  rfl

/-- **End tags search**, all but one. -/
theorem exists_endSearch {name : String} (hname : name ≠ "optgroup") :
    ∃ targets stops, EndSearch name targets stops := by
  by_cases hrule : name ∈ ["p", "li", "option", "optgroup", "select"]
  · simp only [List.mem_cons, List.not_mem_nil, or_false] at hrule
    rcases hrule with rfl | rfl | rfl | rfl | rfl
    iterate 2
      exact ⟨_, _, .of_table (fun _ => rfl) (.inl rfl) (List.Sublist.subset (by decide))
        (fun _ => List.Sublist.subset (by decide)) (List.Sublist.subset (by decide))⟩
    · exact ⟨["option"], fun _ => true, fun _ => rfl, .inl rfl, fun _ _ => rfl, fun _ _ _ => rfl,
        fun hother => absurd (by decide) hother⟩
    · exact absurd rfl hname
    · exact ⟨["select"], (! ["optgroup", "option"].contains ·), fun _ => rfl, .inl rfl,
        by decide, fun _ => by decide, fun hother => absurd (by decide) hother⟩
  · have hends := afterHtmlEnd_of_not_mem hrule
    simp only [List.contains_iff_mem] at hends
    by_cases hheading : name ∈ headings
    · simp only [hheading, if_true] at hends
      exact ⟨_, _, .of_defaultScope hends (.inr ⟨rfl, hheading⟩)⟩
    · by_cases hscoped : (scopedEndTags.contains name || formatting.contains name) = true
      · simp only [hheading, hscoped, if_true, if_false] at hends
        exact ⟨_, _, .of_defaultScope hends (.inl rfl)⟩
      · by_cases htable : name ∈ tableEndTags
        · simp only [hheading, hscoped, htable, if_true, if_false] at hends
          exact ⟨_, _, .of_table hends (.inl rfl) (List.Subset.refl _)
            (fun hother => absurd htable hother) (List.Sublist.subset (by decide))⟩
        · simp only [hheading, hscoped, htable, if_false] at hends
          exact ⟨_, _, .of_table hends (.inl rfl) (List.Sublist.subset (by decide))
            (fun _ => List.Sublist.subset (by decide)) (List.Subset.refl _)⟩

/-- The end tag of an option group ends it and an option in it. -/
theorem endsUpTo_afterHtmlEnd_optgroup (tags : List String) :
    EndsUpTo (sameIgnoringCase · "optgroup") (!sameIgnoringCase · "option") tags
      (afterHtmlEnd "optgroup" tags) := by
  match tags with
  | [] => exact .inl rfl
  | [inner] =>
    simp only [afterHtmlEnd]
    split
    · next hgroup => exact .inr ⟨[], inner, rfl, hgroup, List.forall_mem_nil _⟩
    · exact .inl rfl
  | inner :: outer :: rest =>
    simp only [afterHtmlEnd]
    split
    · next hboth =>
      rw [Bool.and_eq_true] at hboth
      exact .inr ⟨[inner], outer, rfl, hboth.2,
        List.forall_mem_singleton.mpr (congrArg (! ·) hboth.1)⟩
    · split
      · next hgroup => exact .inr ⟨[], inner, rfl, hgroup, List.forall_mem_nil _⟩
      · exact .inl rfl

/-- An end tag opens nothing. -/
theorem afterHtmlEnd_suffix (name : String) (tags : List String) :
    afterHtmlEnd name tags <:+ tags := by
  by_cases hname : name = "optgroup"
  · rw [hname]
    exact (endsUpTo_afterHtmlEnd_optgroup tags).suffix
  · obtain ⟨targets, stops, hsearch⟩ := exists_endSearch hname
    rw [hsearch.eq_close]
    exact close_suffix _ _ tags

/-- **An end tag leaves a suffix open.** -/
theorem afterEnd_suffix (name : String) (tags : List String) : afterEnd name tags <:+ tags := by
  unfold afterEnd
  split
  · exact List.suffix_rfl
  · split
    · next left h =>
      unfold closeForeign? at h
      split at h
      · exact closeTo?_suffix h
      · cases h
    · exact afterHtmlEnd_suffix _ _

theorem sameIgnoringCase_self (name : String) : sameIgnoringCase name name = true :=
  beq_self_eq_true _

/-- The end tag of the innermost open element ends just that. -/
theorem afterHtmlEnd_self (name : String) (outer : List String) :
    afterHtmlEnd (lower name) (name :: outer) = outer := by
  by_cases hname : lower name = "optgroup"
  · have hoption : sameIgnoringCase name "option" = false := by
      rw [sameIgnoringCase, hname]
      decide
    have hself : sameIgnoringCase name "optgroup" = true := by
      rw [sameIgnoringCase, hname]
      decide
    rw [hname]
    cases outer with
    | nil => simp [afterHtmlEnd, hself]
    | cons tag outer => simp [afterHtmlEnd, hoption, hself]
  · obtain ⟨targets, stops, hsearch⟩ := exists_endSearch hname
    rw [hsearch.eq_close]
    exact close_cons_of_target (inTable_iff.mpr hsearch.mem_targets) outer

/-- **The end tag of the innermost element ends it alone**, unless the element is void. -/
theorem afterEnd_self {name : String} (h : Tag.isVoid name = false) (outer : List String) :
    afterEnd name (name :: outer) = outer := by
  rw [afterEnd, if_neg (by simp [h])]
  by_cases hforeign : inForeign (name :: outer) = true
  · rw [closeForeign?, if_pos hforeign, closeTo?, if_pos (sameIgnoringCase_self name)]
  · rw [closeForeign?, if_neg hforeign]
    exact afterHtmlEnd_self name outer

/-- The letter case of an end tag does not count. -/
theorem afterEnd_congr {name name' : String} (h : lower name = lower name') (tags : List String) :
    afterEnd name tags = afterEnd name' tags := by
  have hsame : (sameIgnoringCase · name) = (sameIgnoringCase · name') := by
    funext tag
    rw [sameIgnoringCase, h]
    rfl
  rw [afterEnd, Tag.isVoid, inTable, closeForeign?, hsame, h]
  rfl

end Open

/-! ## Omitted end tags -/

/-- Two suffixes of one list are equal if they are equally long. -/
theorem eq_of_suffix_append {left inner outer : List String} (h : left <:+ inner ++ outer)
    (hlength : left.length = outer.length) : left = outer :=
  (List.suffix_of_suffix_length_le h (List.suffix_append inner outer)
    (Nat.le_of_eq hlength)).eq_of_length hlength

namespace Closer

/-- A start tag that is trusted to end `inner` ends exactly that. -/
theorem afterStart_of_reopens {name : String} {quirks : Bool} {inner outer : List String}
    (h : reopens (.startTag name outer.length) quirks (inner ++ outer) = true) :
    Open.afterStart name quirks (inner ++ outer) = outer := by
  have hlength : (Open.afterStart name quirks (inner ++ outer)).length = outer.length := by
    simpa [reopens] using h
  exact eq_of_suffix_append (Open.afterStart_suffix name quirks _) hlength

/-- An end tag that is trusted to end `inner` ends exactly that. -/
theorem afterEnd_of_reopens {name : String} {quirks : Bool} {inner outer : List String}
    (h : reopens (.endTag name outer.length) quirks (inner ++ outer) = true) :
    Open.afterEnd name (inner ++ outer) = outer := by
  have hlength : (Open.afterEnd name (inner ++ outer)).length = outer.length := by
    simp only [reopens, Bool.and_eq_true, beq_iff_eq] at h
    exact h.2
  exact eq_of_suffix_append (Open.afterEnd_suffix name _) hlength

end Closer

/-- The end tags of raw text elements are never left out. -/
theorem Placed.mayOmitEnd_of_isRawText {element : Placed} (h : Tag.isRawText element.name = true)
    (next : Option Placed) : element.mayOmitEnd next = false := by
  have hmem : lower element.name ∈ Tag.rawTextElements := inTable_iff.mp h
  simp only [Tag.rawTextElements, List.mem_cons, List.not_mem_nil, or_false] at hmem
  unfold mayOmitEnd
  rcases hmem with h | h | h | h | h | h | h | h | h <;> rw [h] <;> rfl

end HtmlMinify
