import HtmlMinify.Proofs.OpenTags
import HtmlMinify.Proofs.Scan

/-!
# What end tags end, and what they never do

An end tag ends open elements up to its own one, or up to a heading if it is that of a heading. In
HTML content it reaches over no table, no template and no page, and only the end tags of tables and
their parts reach over cells and captions. Where it may not reach its element, it ends nothing.

The elements stand on the document. It is no element, so that no tag can end it. What a tag does to
the elements is the same with the document below them as without.

## Main statements

* `Open.endsUpTo_afterEnd`: what an end tag ends.
* `Open.afterStart_append_document`, `Open.afterEnd_append_document`: the document stays.
* `Open.afterEnd_of_reach`: an end tag reaches its element over what does not structure the page.
* `Open.tags_end_in_scope`: all of this about a stack with the document at the bottom.
-/

namespace HtmlMinify.Open

open Text

/-! ## The end tag's own element -/

/-- The element that an end tag is for; that of a heading is for any heading. -/
def isOwn (name tag : String) : Bool :=
  sameIgnoringCase tag name ||
    (inTable ["h1", "h2", "h3", "h4", "h5", "h6"] tag &&
      inTable ["h1", "h2", "h3", "h4", "h5", "h6"] name)

/-- What an end tag in HTML content does not reach over. Only those of tables and their parts reach
over cells and captions. -/
def isBarrier (name tag : String) : Bool :=
  inTable ["html", "table", "template"] tag ||
    (!inTable ["caption", "table", "tbody", "td", "tfoot", "th", "thead", "tr"] name &&
      inTable ["caption", "td", "th"] tag)

/-- What an end tag cannot pass: tables and templates, and cells too, unless it is an end tag of
tables. -/
theorem isBarrier_iff {name tag : String} :
    isBarrier name tag = true ↔
      lower tag ∈ tableScope ∨ lower name ∉ tableEndTags ∧ lower tag ∈ cells := by
  rw [isBarrier, Bool.or_eq_true, Bool.and_eq_true, Bool.not_eq_true', Bool.eq_false_iff, ne_eq,
    inTable_iff, inTable_iff, inTable_iff]
  rfl

namespace EndSearch

variable {name : String} {targets : List String} {stops : String → Bool}

/-- The targets of the search for an end tag are elements of its own. -/
theorem isOwn_of_target (h : EndSearch (lower name) targets stops) {tag : String}
    (htag : inTable targets tag = true) : isOwn name tag = true := by
  rw [isOwn, Bool.or_eq_true, Bool.and_eq_true, inTable_iff, inTable_iff, sameIgnoringCase,
    beq_iff_eq]
  rw [inTable_iff] at htag
  rcases h.own with rfl | ⟨rfl, hheading⟩
  · exact .inl (List.mem_singleton.mp htag)
  · exact .inr ⟨htag, hheading⟩

/-- No search for an end tag passes a barrier. -/
theorem stops_of_isBarrier (h : EndSearch (lower name) targets stops) {tag : String}
    (htag : isBarrier name tag = true) : stops (lower tag) = true := by
  rcases isBarrier_iff.mp htag with htag | ⟨hname, htag⟩
  · exact h.scope _ htag
  · exact h.cell hname _ htag

end EndSearch

/-- What an end tag ends in HTML content. -/
theorem endsUpTo_afterHtmlEnd (name : String) (tags : List String) :
    EndsUpTo (isOwn name) (isBarrier name) tags (afterHtmlEnd (lower name) tags) := by
  by_cases hname : lower name = "optgroup"
  · rw [hname]
    refine (endsUpTo_afterHtmlEnd_optgroup tags).imp (fun tag htag => ?_) fun e hbarrier => ?_
    · rw [isOwn, sameIgnoringCase, hname]
      exact (Bool.or_eq_true _ _).mpr (.inl htag)
    · rw [Bool.not_eq_true', Bool.eq_false_iff]
      intro hoption
      have hlower : lower e = "option" := beq_iff_eq.mp hoption
      rcases isBarrier_iff.mp hbarrier with hscope | ⟨-, hcell⟩
      · rw [hlower] at hscope
        exact absurd hscope (by decide)
      · rw [hlower] at hcell
        exact absurd hcell (by decide)
  · obtain ⟨targets, stops, hsearch⟩ := exists_endSearch hname
    rw [hsearch.eq_close]
    refine (endsUpTo_close _ _ tags).imp (fun _ => hsearch.isOwn_of_target) fun e hbarrier => ?_
    exact (Bool.or_eq_true _ _).mpr (.inr (hsearch.stops_of_isBarrier hbarrier))

/-- **What an end tag ends.** Foreign content has no barriers. -/
theorem endsUpTo_afterEnd (name : String) (tags : List String) :
    EndsUpTo (isOwn name) (fun e => !inForeign tags && isBarrier name e) tags
      (afterEnd name tags) := by
  unfold afterEnd
  split
  · exact .inl rfl
  · split
    · next left hfound =>
      unfold closeForeign? at hfound
      split at hfound
      · next hforeign =>
        obtain ⟨inner, tag, htags, htag, -⟩ := exists_of_closeTo? hfound
        refine .inr ⟨inner, tag, htags, (Bool.or_eq_true _ _).mpr (.inl htag), fun e _ => ?_⟩
        rw [hforeign]
        rfl
      · cases hfound
    · exact (endsUpTo_afterHtmlEnd name tags).imp (fun _ => id)
        fun _ hbarrier => ((Bool.and_eq_true _ _).mp hbarrier).2

/-! ## Reach -/

/-- A search that comes to a target ends all up to it, unless it was stopped. -/
theorem closeTo?_append_cons {target stop : String → Bool} {inner : List String} {tag : String}
    (hinner : ∀ e ∈ inner, target e = false) (htag : target tag = true) (outer : List String) :
    closeTo? target stop (inner ++ tag :: outer) = if inner.any stop then none else some outer := by
  induction inner with
  | nil => rw [List.nil_append, closeTo?, if_pos htag, List.any_nil, if_neg Bool.false_ne_true]
  | cons e inner ih =>
    obtain ⟨he, hinner⟩ := List.forall_mem_cons.mp hinner
    rw [List.cons_append, closeTo?, he, if_neg Bool.false_ne_true, ih hinner, List.any_cons]
    cases stop e <;> rfl

/-- An end tag ends its element, if nothing of its kind and nothing special is inside. -/
theorem EndSearch.afterHtmlEnd_of_reach {name tag : String} {targets inner : List String}
    {stops : String → Bool} (h : EndSearch name targets stops) (hname : name ∉ ["option", "select"])
    (htag : lower tag = name) (hinner : ∀ e ∈ inner, lower e ≠ name ∧ lower e ∉ Open.special)
    (outer : List String) : afterHtmlEnd name (inner ++ tag :: outer) = outer := by
  have htarget : inTable targets tag = true := inTable_iff.mpr (htag ▸ h.mem_targets)
  have hpass : ∀ e ∈ inner, inTable targets e = false := by
    intro e he
    obtain ⟨hother, hplain⟩ := hinner e he
    rw [Bool.eq_false_iff, ne_eq, inTable_iff]
    rcases h.own with rfl | ⟨rfl, -⟩
    · exact fun hmem => hother (List.mem_singleton.mp hmem)
    · exact fun hmem => hplain (List.Sublist.subset (by decide) hmem)
  have hstop : inner.any (stops ∘ lower) = false := by
    rw [List.any_eq_false]
    exact fun e he hstops => (hinner e he).2 (h.special hname _ hstops)
  rw [h.eq_close, close, closeTo?_append_cons hpass htarget, hstop, if_neg Bool.false_ne_true,
    Option.getD_some]

/-- **An end tag reaches its element over all that does not structure the page.** The end tags of
options, of their groups and of their lists end it for sure only if it is the innermost. -/
theorem afterEnd_of_reach {name tag : String} {inner : List String}
    (hvoid : Tag.isVoid name = false) (htag : sameIgnoringCase tag name = true)
    (hinner : ∀ e ∈ inner, sameIgnoringCase e name = false ∧ inTable special e = false)
    (hoption : inTable ["optgroup", "option", "select"] name = true → inner = [])
    (outer : List String) : afterEnd name (inner ++ tag :: outer) = outer := by
  have hlower : lower tag = lower name := beq_iff_eq.mp htag
  by_cases hnone : inner = []
  · have hsame : Tag.isVoid tag = Tag.isVoid name := by
      rw [Tag.isVoid, Tag.isVoid, inTable, inTable, hlower]
    rw [hnone, List.nil_append, afterEnd_congr hlower.symm]
    exact afterEnd_self (hsame.trans hvoid) outer
  · have hname : lower name ∉ ["optgroup", "option", "select"] :=
      fun hmem => hnone (hoption (inTable_iff.mpr hmem))
    rw [List.mem_cons, not_or] at hname
    have hhtml : afterHtmlEnd (lower name) (inner ++ tag :: outer) = outer := by
      obtain ⟨targets, stops, hsearch⟩ := exists_endSearch hname.1
      refine hsearch.afterHtmlEnd_of_reach hname.2 hlower (fun e he => ?_) outer
      obtain ⟨hother, hplain⟩ := hinner e he
      exact ⟨beq_eq_false_iff_ne.mp hother, fun hmem =>
        Bool.false_ne_true (hplain.symm.trans (inTable_iff.mpr hmem))⟩
    -- Foreign content hides the element or not: both searches end the same.
    rw [afterEnd, hvoid, if_neg Bool.false_ne_true, closeForeign?,
      closeTo?_append_cons (fun e he => (hinner e he).1) htag, hhtml]
    cases inForeign (inner ++ tag :: outer) <;> cases inner.any Tag.isForeignRoot <;> rfl

/-! ## The document -/

/-- A search does not find what stands outermost, if that is no target. -/
theorem closeTo?_append_of_not {target stop : String → Bool} {last : String}
    (h : target last = false) (tags : List String) :
    closeTo? target stop (tags ++ [last]) = (closeTo? target stop tags).map (· ++ [last]) := by
  induction tags with
  | nil => simp [closeTo?, h]
  | cons tag outer ih =>
    rw [List.cons_append, closeTo?, closeTo?, ih]
    split
    · rfl
    · split <;> rfl

/-- So it leaves this open. -/
theorem close_append_of_not {target stop : String → Bool} {last : String}
    (h : target last = false) (tags : List String) :
    close target stop (tags ++ [last]) = close target stop tags ++ [last] := by
  rw [close, close, closeTo?_append_of_not h]
  cases closeTo? target stop tags <;> rfl

/-- The document is no foreign content. -/
theorem inForeign_append_document (tags : List String) :
    inForeign (tags ++ ["#document"]) = inForeign tags := by
  rw [inForeign_append, show inForeign ["#document"] = false by decide, Bool.or_false]

/-- No implied end looks for the document. -/
theorem target_document_of_mem_impliedEnds (name : String) (quirks : Bool) :
    ∀ rule ∈ impliedEnds name quirks, rule.target "#document" = false := by
  rw [impliedEnds, List.forall_mem_append]
  constructor
  · unfold ownImpliedEnds
    split
    iterate 4 exact List.forall_mem_singleton.mpr (by decide)
    · exact List.forall_mem_cons.mpr ⟨by decide, List.forall_mem_singleton.mpr (by decide)⟩
    iterate 9 exact List.forall_mem_singleton.mpr (by decide)
    · exact List.forall_mem_nil _
  · split
    · exact List.forall_mem_singleton.mpr (by decide)
    · exact List.forall_mem_nil _

/-- **A start tag does not end the document.** -/
theorem afterStart_append_document (name : String) (quirks : Bool) (tags : List String) :
    afterStart name quirks (tags ++ ["#document"]) =
      afterStart name quirks tags ++ ["#document"] := by
  rw [afterStart, afterStart, inForeign_append_document,
    foldl_close_comm (· ++ ["#document"]) fun rule hrule =>
      close_append_of_not (target_document_of_mem_impliedEnds name quirks rule hrule)]
  split <;> rfl

/-- No tag has the name of the document, for that does not begin with a letter. -/
theorem lower_ne_document {name : String} (h : name.toList.head?.any Char.isAlpha = true) :
    lower name ≠ "#document" := by
  intro hname
  have hchars : name.toList.map Char.toLower = "#document".toList := by
    rw [← hname, lower, String.toList_ofList]
  cases hlist : name.toList with
  | nil => simp [hlist] at h
  | cons c rest =>
    rw [hlist, List.head?_cons, Option.any_some] at h
    rw [hlist, List.map_cons] at hchars
    have hfirst : c.toLower = '#' := (List.cons.inj hchars).1
    have hletter := isAlpha_toLower h
    rw [hfirst] at hletter
    exact absurd hletter (by decide)

/-- The end tag of a group of options does not end the document. -/
theorem afterHtmlEnd_optgroup_append_document (tags : List String) :
    afterHtmlEnd "optgroup" (tags ++ ["#document"]) =
      afterHtmlEnd "optgroup" tags ++ ["#document"] := by
  have hgroup : sameIgnoringCase "#document" "optgroup" = false := by decide
  match tags with
  | [] => rfl
  | [inner] =>
    simp only [afterHtmlEnd, List.cons_append, List.nil_append, hgroup, Bool.and_false,
      Bool.false_eq_true, if_false]
    split <;> rfl
  | inner :: outer :: rest =>
    simp only [afterHtmlEnd, List.cons_append]
    split
    · rfl
    · split <;> rfl

/-- An end tag of HTML content does not end the document. -/
theorem afterHtmlEnd_append_document {name : String} (hname : name ≠ "#document")
    (tags : List String) :
    afterHtmlEnd name (tags ++ ["#document"]) = afterHtmlEnd name tags ++ ["#document"] := by
  by_cases hgroup : name = "optgroup"
  · rw [hgroup, afterHtmlEnd_optgroup_append_document]
  · obtain ⟨targets, stops, hsearch⟩ := exists_endSearch hgroup
    have hdocument : inTable targets "#document" = false := by
      rw [Bool.eq_false_iff, ne_eq, inTable_iff, show lower "#document" = "#document" by decide]
      rcases hsearch.own with rfl | ⟨rfl, -⟩
      · rw [List.mem_singleton]
        exact hname.symm
      · decide
    rw [hsearch.eq_close, hsearch.eq_close, close_append_of_not hdocument]

/-- An end tag in foreign content does not end the document. -/
theorem closeForeign?_append_document {name : String} (hname : lower name ≠ "#document")
    (tags : List String) :
    closeForeign? name (tags ++ ["#document"]) =
      (closeForeign? name tags).map (· ++ ["#document"]) := by
  have hdocument : sameIgnoringCase "#document" name = false :=
    beq_eq_false_iff_ne.mpr fun h => hname h.symm
  rw [closeForeign?, closeForeign?, inForeign_append_document]
  split
  · refine closeTo?_append_of_not ?_ tags
    exact hdocument
  · rfl

/-- **An end tag does not end the document.** -/
theorem afterEnd_append_document {name : String} (hname : lower name ≠ "#document")
    (tags : List String) :
    afterEnd name (tags ++ ["#document"]) = afterEnd name tags ++ ["#document"] := by
  rw [afterEnd, afterEnd, closeForeign?_append_document hname, afterHtmlEnd_append_document hname]
  split
  · rfl
  · cases closeForeign? name tags <;> rfl

/-! ## Stacks -/

/-- What the end tag `name` does to a stack of open elements, innermost first, of which it leaves
`left`. -/
structure EndsInScope (name : String) (stack left : List String) : Prop where
  one_le : 1 ≤ left.length
  le : left.length ≤ stack.length
  /-- Of what is ended, the outermost element is the end tag's own. No barrier was inside it. -/
  own : left.length < stack.length →
    ∃ inner tag, stack = inner ++ tag :: left ∧ isOwn name tag = true ∧
      (inForeign stack = false → ∀ e ∈ inner, isBarrier name e = false)
  /-- The end tag reaches its own element over all that does not structure the page. -/
  reach : ∀ inner tag outer, stack = inner ++ tag :: outer → Tag.isVoid name = false →
    sameIgnoringCase tag name = true →
    (∀ e ∈ inner, sameIgnoringCase e name = false ∧ inTable special e = false) →
    (inTable ["optgroup", "option", "select"] name = true → inner = []) → left = outer

/-- **Tags end their own elements, and keep to their scopes.** The document stays below all
elements: a tag does with it what it does without. -/
theorem tags_end_in_scope {tags stack : List String} (hstack : stack = tags ++ ["#document"]) :
    (∀ name : String, name.toList.head?.any Char.isAlpha = true →
      EndsInScope name stack (afterEnd name stack) ∧
        afterEnd name stack = afterEnd name tags ++ ["#document"]) ∧
    ∀ (name : String) (quirks : Bool),
      (1 ≤ (afterStart name quirks stack).length ∧
        (afterStart name quirks stack).length ≤ stack.length) ∧
      afterStart name quirks stack = afterStart name quirks tags ++ ["#document"] := by
  have hkeeps {left kept : List String} (h : left = kept ++ ["#document"]) : 1 ≤ left.length := by
    rw [h, List.length_append, List.length_singleton]
    exact Nat.le_add_left 1 _
  refine ⟨fun name hname => ?_, fun name quirks => ?_⟩
  · have hdocument : afterEnd name stack = afterEnd name tags ++ ["#document"] := by
      rw [hstack, afterEnd_append_document (lower_ne_document hname)]
    have hle := (afterEnd_suffix name stack).length_le
    refine ⟨⟨hkeeps hdocument, hle, fun hless => ?_, ?_⟩, hdocument⟩
    · rcases endsUpTo_afterEnd name stack with hall | ⟨inner, tag, hopen, htag, hinner⟩
      · exact absurd (congrArg List.length hall) (Nat.ne_of_lt hless)
      · refine ⟨inner, tag, hopen, htag, fun hhtml e he => ?_⟩
        have hpass : (!inForeign stack && isBarrier name e) = false := hinner e he
        rwa [hhtml, Bool.not_false, Bool.true_and] at hpass
    · intro inner tag outer hopen hvoid htag hinner hoption
      rw [hopen]
      exact afterEnd_of_reach hvoid htag hinner hoption outer
  · have hdocument : afterStart name quirks stack = afterStart name quirks tags ++ ["#document"] := by
      rw [hstack, afterStart_append_document]
    exact ⟨⟨hkeeps hdocument, (afterStart_suffix name quirks stack).length_le⟩, hdocument⟩

/-- The end tag of a row ends an open cell in it, but not the table around it. -/
theorem tags_end_in_scope_row :
    "TR".toList.head?.any Char.isAlpha = true ∧
      afterEnd "TR" ["b", "td", "tr", "table", "#document"] = ["table", "#document"] ∧
      EndsInScope "TR" ["b", "td", "tr", "table", "#document"]
        (afterEnd "TR" ["b", "td", "tr", "table", "#document"]) := by
  have hstack :
      ["b", "td", "tr", "table", "#document"] = ["b", "td", "tr", "table"] ++ ["#document"] := rfl
  exact ⟨by decide, by decide, ((tags_end_in_scope hstack).1 "TR" (by decide)).1⟩

end HtmlMinify.Open
