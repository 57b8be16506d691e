import HtmlMinify.Proofs.QuirksMode
import HtmlMinify.Proofs.TagCase

/-!
# Start tags seen again

A start tag ends open elements, and then its element comes to stand in those that are left. Seen again
with just these open, it should end none of them. This is so for all elements but a few. The start tag
of a list item looks for an open item first and for an open paragraph after that. Where something in the
paragraph hides the item from the first search, the second one ends the paragraph and what hid the item
with it. The new item then stands inside the old one, as do further items after it. The same goes for
the items of definition lists. The start tag of `body` ends one `head` only, and stays in the next one
if there are several.

`Spot.isDisplaced` tells these elements by what is around them and by the siblings before them. What
hid the item was open when the paragraph was ended, so it is still found at the end of the paragraph:
it is the last node in it, or around that.

## Main statements

* `Open.Settled.afterStart_again`: what a start tag may end among the elements that it left open.
* `Builder.Effect.settles`: a token puts its element where it ends nothing, or displaced.
* `Document.nested_or_displaced_of_parse`: so does a page.
-/

namespace HtmlMinify

open Text

/-! ## Open elements -/

namespace Open

/-- The search of an implied end finds nothing. -/
def ImpliedEnd.Idle (rule : ImpliedEnd) (tags : List String) : Prop :=
  close rule.target rule.stop tags = tags

namespace ImpliedEnd

variable {rule other : ImpliedEnd} {tags : List String}

/-- An implied end finds nothing, or the outermost element that it ends is one it looks for. -/
theorem idle_or_exists (rule : ImpliedEnd) (tags : List String) :
    rule.Idle tags ∨
      ∃ tag, rule.target tag = true ∧ tag :: close rule.target rule.stop tags <:+ tags := by
  refine (endsUpTo_close rule.target rule.stop tags).imp_right ?_
  rintro ⟨inner, tag, htags, htarget, -⟩
  exact ⟨tag, htarget, inner, htags.symm⟩

/-- An implied end that is not idle finds one of the elements it looks for. -/
theorem any_of_not_idle (h : ¬ rule.Idle tags) : tags.any rule.target = true := by
  obtain ⟨tag, htarget, hopen⟩ := (idle_or_exists rule tags).resolve_left h
  exact List.any_eq_true.mpr ⟨tag, hopen.mem List.mem_cons_self, htarget⟩

/-- A search finds nothing in what an implied end leaves, if it finds nothing around what that looks
for, and nothing where that finds nothing. -/
theorem idle_close (hother : rule.Idle tags → other.Idle tags)
    (h : ∀ tag outer, rule.target tag = true → tag :: outer <:+ tags → other.Idle outer) :
    other.Idle (close rule.target rule.stop tags) := by
  rcases idle_or_exists rule tags with hidle | ⟨tag, htarget, hsuffix⟩
  · rw [show close rule.target rule.stop tags = tags from hidle]
    exact hother hidle
  · exact h tag _ htarget hsuffix

/-- A rule that finds nothing finds nothing further out. -/
theorem Idle.of_cons {tag : String} (h : rule.Idle (tag :: tags)) (hstop : rule.stop tag = false) :
    rule.Idle tags := by
  unfold Idle close at h ⊢
  rw [closeTo?] at h
  split at h
  · exact absurd h.symm (List.cons_ne_self tag tags)
  · rw [hstop, if_neg Bool.false_ne_true] at h
    cases hfound : closeTo? rule.target rule.stop tags with
    | none => rfl
    | some left =>
      have hless := (closeTo?_suffix hfound).length_le
      rw [hfound, Option.getD_some] at h
      rw [h, List.length_cons] at hless
      exact absurd hless (Nat.not_succ_le_self _)

/-- A search that finds nothing, though there is something to find further out, was stopped before. -/
theorem Idle.exists_stop {inner : List String} (h : rule.Idle (inner ++ tags))
    (houter : ¬ rule.Idle tags) : ∃ tag ∈ inner, rule.stop tag = true := by
  induction inner with
  | nil => exact absurd h houter
  | cons tag inner ih =>
    cases hstop : rule.stop tag with
    | true => exact ⟨tag, List.mem_cons_self, hstop⟩
    | false =>
      obtain ⟨found, hfound, hstops⟩ := ih (h.of_cons hstop)
      exact ⟨found, List.mem_cons_of_mem tag hfound, hstops⟩

end ImpliedEnd

/-- Implied ends end nothing together only if none of them finds anything. -/
theorem foldl_close_eq_self_iff {rules : List ImpliedEnd} {tags : List String} :
    rules.foldl (fun left rule => close rule.target rule.stop left) tags = tags ↔
      ∀ rule ∈ rules, rule.Idle tags := by
  induction rules with
  | nil => exact iff_of_true rfl (List.forall_mem_nil _)
  | cons rule rules ih =>
    rw [List.foldl_cons, List.forall_mem_cons, ← ih]
    constructor
    · intro h
      have hless : tags.length ≤ (close rule.target rule.stop tags).length := by
        nth_rewrite 1 [← h]
        exact (foldl_close_suffix rules _).length_le
      have hidle := (close_suffix rule.target rule.stop tags).eq_of_length_le hless
      rw [hidle] at h
      exact ⟨hidle, h⟩
    · rintro ⟨hidle, h⟩
      rwa [show close rule.target rule.stop tags = tags from hidle]

/-- What is around HTML content is HTML content. -/
theorem inForeign_of_suffix {tags outer : List String} (h : inForeign tags = false)
    (hsuffix : outer <:+ tags) : inForeign outer = false := by
  obtain ⟨inner, rfl⟩ := hsuffix
  rw [inForeign_append, Bool.or_eq_false_iff] at h
  exact h.2

/-- Outside foreign content a start tag ends nothing if no implied end finds anything. -/
theorem afterStart_eq_self_iff {name : String} {quirks : Bool} {tags : List String}
    (h : inForeign (name :: tags) = false) :
    afterStart name quirks tags = tags ↔ ∀ rule ∈ impliedEnds name quirks, rule.Idle tags := by
  rw [inForeign_cons] at h
  rw [afterStart, h, if_neg Bool.false_ne_true, foldl_close_eq_self_iff]

/-- What can keep the start tag of an element from ending all that it looks for: a cover that is ended,
too, and in which something hides what is around it. Elements of the same kind may follow. -/
structure Displacement where
  kind : List String
  target : List String
  cover : String
  hides : String → Bool

/-- The elements that may come to stand inside an element that their start tag ends. -/
def displacement? (name : String) : Option Displacement :=
  match lower name with
  | "li" => some ⟨["li"], ["li"], "p", stopsItem⟩
  | "dd" | "dt" => some ⟨["dd", "dt"], ["dd", "dt"], "p", stopsItem⟩
  | "body" => some ⟨[], ["head"], "head", inTable ["head"]⟩
  | _ => none

theorem impliedEnds_congr {name name' : String} (h : lower name = name') (quirks : Bool) :
    impliedEnds name quirks = impliedEnds name' quirks := by
  rw [← impliedEnds_lower, h]

theorem displacement?_congr {name name' : String} (h : lower name = lower name') :
    displacement? name = displacement? name' := by
  rw [displacement?, displacement?, h]

/-- The rule looks for elements whose start tags imply it and nothing else. -/
def ImpliedEnd.EndsAlike (rule : ImpliedEnd) (quirks : Bool) : Prop :=
  ∀ tag, rule.target tag = true → displacement? tag = none ∧ impliedEnds tag quirks = [rule]

/-- The start tags of a table end each other alike, if each has this one rule. -/
theorem endsAlike_of_table {names : List String} {stop : String → Bool} {quirks : Bool}
    (h : ∀ name ∈ names, displacement? name = none ∧
      impliedEnds name quirks = [⟨inTable names, stop⟩]) :
    ImpliedEnd.EndsAlike ⟨inTable names, stop⟩ quirks := by
  intro tag htag
  have hmem : lower tag ∈ names := inTable_iff.mp htag
  obtain ⟨hdisplaced, hrules⟩ := h _ hmem
  exact ⟨(displacement?_congr (lower_lower tag).symm).trans hdisplaced,
    (impliedEnds_lower tag quirks).symm.trans hrules⟩

/-- The start tags that end a paragraph do so wherever they are. -/
theorem endsAlike_endOfParagraph (quirks : Bool) : endOfParagraph.EndsAlike quirks := by
  refine endsAlike_of_table (List.forall_mem_singleton.mpr ⟨rfl, ?_⟩)
  cases quirks <;> rfl

/-- Most start tags imply one end at most, and only of elements whose start tags imply the same. -/
theorem impliedEnds_of_displacement?_none {name : String} (h : displacement? name = none)
    (hgroup : lower name ≠ "optgroup") (quirks : Bool) :
    impliedEnds name quirks = [] ∨
      ∃ rule, impliedEnds name quirks = [rule] ∧ rule.EndsAlike quirks := by
  rw [displacement?_congr (lower_lower name).symm] at h
  rw [← impliedEnds_lower]
  have hlower := lower_lower name
  generalize lower name = n at h hgroup hlower ⊢
  rw [impliedEnds, hlower]
  unfold ownImpliedEnds
  split
  iterate 3 exact absurd h (by decide)
  · exact .inr ⟨_, rfl, endsAlike_of_table (List.forall_mem_singleton.mpr ⟨rfl, rfl⟩)⟩
  · exact absurd rfl hgroup
  iterate 2
    exact .inr ⟨_, rfl, endsAlike_of_table (List.forall_mem_cons.mpr ⟨⟨rfl, rfl⟩,
      List.forall_mem_singleton.mpr ⟨rfl, rfl⟩⟩)⟩
  · exact .inr ⟨_, rfl, endsAlike_of_table (List.forall_mem_singleton.mpr ⟨rfl, rfl⟩)⟩
  iterate 3
    exact .inr ⟨_, rfl, endsAlike_of_table (List.forall_mem_cons.mpr ⟨⟨rfl, rfl⟩,
      List.forall_mem_cons.mpr ⟨⟨rfl, rfl⟩, List.forall_mem_singleton.mpr ⟨rfl, rfl⟩⟩⟩)⟩
  iterate 2
    exact .inr ⟨_, rfl, endsAlike_of_table (List.forall_mem_cons.mpr ⟨⟨rfl, rfl⟩,
      List.forall_mem_singleton.mpr ⟨rfl, rfl⟩⟩)⟩
  · exact absurd h (by decide)
  · rw [List.nil_append]
    split
    · exact .inr ⟨_, rfl, endsAlike_endOfParagraph quirks⟩
    · exact .inl rfl

/-- What displaces a kind is the same for all of this kind. -/
theorem displacement?_of_kind {name tag : String} {d : Displacement} (h : displacement? name = some d)
    (htag : inTable d.kind tag = true) : displacement? tag = some d := by
  have hmem : lower tag ∈ d.kind := inTable_iff.mp htag
  have hkind : ∀ n ∈ d.kind, displacement? n = some d := by
    unfold displacement? at h
    split at h
    · cases h
      exact List.forall_mem_singleton.mpr rfl
    · cases h
      exact List.forall_mem_cons.mpr ⟨rfl, List.forall_mem_singleton.mpr rfl⟩
    · cases h
      exact List.forall_mem_cons.mpr ⟨rfl, List.forall_mem_singleton.mpr rfl⟩
    · cases h
      exact List.forall_mem_nil _
    · cases h
  exact (displacement?_congr (lower_lower tag).symm).trans (hkind _ hmem)

/-- The start tags of items imply the end of an item of their kind and then that of a paragraph; the
start tag of `body` implies that of a `head`. -/
theorem impliedEnds_of_displacement? {name : String} {d : Displacement}
    (h : displacement? name = some d) (quirks : Bool) :
    (d = ⟨d.kind, d.kind, "p", stopsItem⟩ ∧
        impliedEnds name quirks = [⟨inTable d.kind, stopsItem⟩, endOfParagraph]) ∨
      (d = ⟨[], ["head"], "head", inTable ["head"]⟩ ∧
        impliedEnds name quirks = [⟨inTable ["head"], inTable ["html"]⟩]) := by
  unfold displacement? at h
  rw [← impliedEnds_lower]
  split at h
  iterate 3
    next hname =>
      cases h
      rw [hname]
      exact .inl ⟨rfl, by cases quirks <;> rfl⟩
  · next hname =>
    cases h
    rw [hname]
    exact .inr ⟨rfl, rfl⟩
  · cases h

/-- The start tags of one kind end the same. -/
theorem impliedEnds_of_kind {name tag : String} {d : Displacement} (h : displacement? name = some d)
    (htag : inTable d.kind tag = true) (quirks : Bool) :
    impliedEnds tag quirks = [⟨inTable d.kind, stopsItem⟩, endOfParagraph] := by
  rcases impliedEnds_of_displacement? (displacement?_of_kind h htag) quirks with
    ⟨-, hrules⟩ | ⟨rfl, -⟩
  · exact hrules
  · cases htag

/-- If the start tag `name` looks for a paragraph at all, there is none to be found. -/
def KeepsParagraph (name : String) (quirks : Bool) (tags : List String) : Prop :=
  endOfParagraph ∈ impliedEnds name quirks → endOfParagraph.Idle tags

/-- No start tag of an open element would end an element around it, items and `body` aside, and those
would end no paragraph. -/
def Settled (quirks : Bool) (tags : List String) : Prop :=
  ∀ tag outer, tag :: outer <:+ tags → afterStart tag quirks outer = outer ∨
    displacement? tag ≠ none ∧ KeepsParagraph tag quirks outer

namespace Settled

variable {quirks : Bool} {tags : List String}

theorem suffix (h : Settled quirks tags) {outer : List String} (hsuffix : outer <:+ tags) :
    Settled quirks outer :=
  fun tag around hopen => h tag around (hopen.trans hsuffix)

/-- In settled HTML content an open element found nothing to end when it was opened, if it displaces
nothing. -/
theorem idle (h : Settled quirks tags) (hhtml : inForeign tags = false) {tag : String}
    {outer : List String} (hopen : tag :: outer <:+ tags) (htag : displacement? tag = none) :
    ∀ rule ∈ impliedEnds tag quirks, rule.Idle outer :=
  (afterStart_eq_self_iff (inForeign_of_suffix hhtml hopen)).mp
    ((h tag outer hopen).resolve_right fun hdisplaced => hdisplaced.1 htag)

/-- In settled HTML content no open element is inside a paragraph that it would end. -/
theorem keepsParagraph (h : Settled quirks tags) (hhtml : inForeign tags = false) {tag : String}
    {outer : List String} (hopen : tag :: outer <:+ tags) : KeepsParagraph tag quirks outer := by
  rcases h tag outer hopen with hnested | ⟨-, hkeeps⟩
  · exact (afterStart_eq_self_iff (inForeign_of_suffix hhtml hopen)).mp hnested _
  · exact hkeeps

/-- Rules that end elements with the same rule find nothing a second time. -/
theorem idle_of_endsAlike (h : Settled quirks tags) (hhtml : inForeign tags = false)
    {rule : ImpliedEnd} (hrule : rule.EndsAlike quirks) :
    rule.Idle (close rule.target rule.stop tags) := by
  refine ImpliedEnd.idle_close id fun tag outer htarget hopen => ?_
  obtain ⟨htag, hrules⟩ := hrule tag htarget
  exact h.idle hhtml hopen htag rule (by rw [hrules]; exact List.mem_singleton_self rule)

/-- The start tag of a group of options ends an option and then a group. Neither is left to be found:
the start tag of the group that was ended would have ended them. -/
theorem idle_optgroup (h : Settled quirks tags) (hhtml : inForeign tags = false) :
    ∀ rule ∈ [endOfInnermost "option", endOfInnermost "optgroup"],
      rule.Idle ([endOfInnermost "option", endOfInnermost "optgroup"].foldl
        (fun left rule => close rule.target rule.stop left) tags) := by
  have hoption : (endOfInnermost "option").Idle
      (close (endOfInnermost "option").target (endOfInnermost "option").stop tags) :=
    h.idle_of_endsAlike hhtml (endsAlike_of_table (List.forall_mem_singleton.mpr ⟨rfl, rfl⟩))
  have hgroup (rule : ImpliedEnd)
      (hrule : rule ∈ [endOfInnermost "option", endOfInnermost "optgroup"]) (tag : String)
      (outer : List String) (htarget : (endOfInnermost "optgroup").target tag = true)
      (hopen : tag :: outer <:+
        close (endOfInnermost "option").target (endOfInnermost "option").stop tags) :
      rule.Idle outer := by
    have hlower : lower tag = "optgroup" := List.mem_singleton.mp (inTable_iff.mp htarget)
    have hnone : displacement? tag = displacement? "optgroup" := displacement?_congr hlower
    refine h.idle hhtml (hopen.trans (close_suffix _ _ _)) hnone rule ?_
    rwa [impliedEnds_congr hlower]
  rw [List.foldl_cons, List.foldl_cons, List.foldl_nil]
  refine List.forall_mem_cons.mpr ⟨?_, List.forall_mem_singleton.mpr ?_⟩
  · exact ImpliedEnd.idle_close (fun _ => hoption) (hgroup _ List.mem_cons_self)
  · exact ImpliedEnd.idle_close id (hgroup _ (List.mem_cons_of_mem _ (List.mem_singleton_self _)))

/-- Most start tags find nothing in what they left open. -/
theorem idle_foldl_close (h : Settled quirks tags) (hhtml : inForeign tags = false) {name : String}
    (hname : displacement? name = none) :
    ∀ rule ∈ impliedEnds name quirks, rule.Idle ((impliedEnds name quirks).foldl
      (fun left rule => close rule.target rule.stop left) tags) := by
  by_cases hgroup : lower name = "optgroup"
  · rw [impliedEnds_congr hgroup]
    exact h.idle_optgroup hhtml
  · rcases impliedEnds_of_displacement?_none hname hgroup quirks with hrules | ⟨rule, hrules, halike⟩
    · rw [hrules]
      exact List.forall_mem_nil _
    · rw [hrules]
      exact List.forall_mem_singleton.mpr (h.idle_of_endsAlike hhtml halike)

/-- The start tag of an item leaves an item to be found only if the paragraph that it ended held what
stopped the search, or if the item that it ended had one around it, too. -/
theorem exists_of_item (h : Settled quirks tags) (hhtml : inForeign tags = false)
    {kind left : List String}
    (hkind : ∀ tag, inTable kind tag = true → endOfParagraph ∈ impliedEnds tag quirks)
    (hleft : left = close endOfParagraph.target endOfParagraph.stop
      (close (inTable kind) stopsItem tags))
    (hends : left ≠ tags) (hmore : ¬ ImpliedEnd.Idle ⟨inTable kind, stopsItem⟩ left) :
    ∃ inner tag, tags = inner ++ tag :: left ∧
      (inTable ["p"] tag = true ∧ (tag :: inner).any stopsItem = true ∨ inTable kind tag = true) := by
  rcases ImpliedEnd.idle_or_exists ⟨inTable kind, stopsItem⟩ tags with hidle | ⟨tag, htarget, hopen⟩
  · rw [show close (inTable kind) stopsItem tags = tags from hidle] at hleft
    rcases endOfParagraph.idle_or_exists tags with hparagraph | ⟨tag, htarget, inner, hinner⟩
    · exact absurd (hleft.trans hparagraph) hends
    · rw [← hleft] at hinner
      rw [← hinner, List.append_cons] at hidle
      obtain ⟨hider, hmem, hstop⟩ := hidle.exists_stop hmore
      refine ⟨inner, tag, hinner.symm, .inl ⟨htarget, List.any_eq_true.mpr ⟨hider, ?_, hstop⟩⟩⟩
      rwa [List.mem_append, List.mem_singleton, or_comm, ← List.mem_cons] at hmem
  · have hparagraph : endOfParagraph.Idle (close (inTable kind) stopsItem tags) :=
      h.keepsParagraph hhtml hopen (hkind tag htarget)
    obtain ⟨inner, hinner⟩ := hopen
    rw [hleft.trans hparagraph]
    exact ⟨inner, tag, hinner.symm, .inr htarget⟩

/-- **What a start tag may end when it comes again.** Mostly nothing. Otherwise an element that it looks
for is open, and the outermost element that it ended before is a cover, and what hid more was open in
it, or it is an item of the same kind whose start tag would end something, too. -/
theorem afterStart_again (h : Settled quirks tags) (name : String) :
    let left := afterStart name quirks tags
    afterStart name quirks left = left ∨
      ∃ d inner tag, displacement? name = some d ∧ tags = inner ++ tag :: left ∧
        KeepsParagraph name quirks left ∧ left.any (inTable d.target) = true ∧
        (inTable [d.cover] tag = true ∧ (tag :: inner).any d.hides = true ∨
          inTable d.kind tag = true ∧ afterStart tag quirks left ≠ left) := by
  intro left
  by_cases hends : left = tags
  · exact .inl (congrArg (afterStart name quirks) hends)
  obtain ⟨hroot, hhtml⟩ := not_foreign_of_afterStart hends
  have hleft : inForeign left = false :=
    inForeign_of_suffix hhtml (afterStart_suffix name quirks tags)
  have hfold : left = (impliedEnds name quirks).foldl
      (fun left rule => close rule.target rule.stop left) tags := by
    simp only [left, afterStart, hroot, hhtml, Bool.or_self, Bool.false_eq_true, if_false]
  have hagain : afterStart name quirks left = left ↔
      ∀ rule ∈ impliedEnds name quirks, rule.Idle left :=
    afterStart_eq_self_iff (by rw [inForeign_cons, hroot, hleft]; rfl)
  cases hname : displacement? name with
  | none =>
    refine .inl (hagain.mpr ?_)
    rw [hfold]
    exact h.idle_foldl_close hhtml hname
  | some d =>
    refine or_iff_not_imp_left.mpr fun hmore => ?_
    rw [hagain] at hmore
    rcases impliedEnds_of_displacement? hname quirks with ⟨hd, hrules⟩ | ⟨rfl, hrules⟩
    · rw [hrules] at hfold hmore
      rw [List.foldl_cons, List.foldl_cons, List.foldl_nil] at hfold
      have hparagraph : endOfParagraph.Idle left := by
        rw [hfold]
        exact (h.suffix (close_suffix _ _ _)).idle_of_endsAlike
          (inForeign_of_suffix hhtml (close_suffix _ _ _)) (endsAlike_endOfParagraph quirks)
      have hitem : ¬ ImpliedEnd.Idle ⟨inTable d.kind, stopsItem⟩ left := fun hidle =>
        hmore (List.forall_mem_cons.mpr ⟨hidle, List.forall_mem_singleton.mpr hparagraph⟩)
      have hkind (tag : String) (htag : inTable d.kind tag = true) :
          endOfParagraph ∈ impliedEnds tag quirks := by
        rw [impliedEnds_of_kind hname htag]
        exact List.mem_cons_of_mem _ (List.mem_singleton_self _)
      obtain ⟨inner, tag, htags, hwhy⟩ := h.exists_of_item hhtml hkind hfold hends hitem
      refine ⟨d, inner, tag, rfl, htags, fun _ => hparagraph, ?_, ?_⟩
      · rw [hd]
        exact ImpliedEnd.any_of_not_idle hitem
      rw [hd]
      refine hwhy.imp_right fun htag => ⟨htag, fun hsame => hitem ?_⟩
      have hopen : tag :: left <:+ tags := ⟨inner, htags.symm⟩
      refine (afterStart_eq_self_iff (inForeign_of_suffix hhtml hopen)).mp hsame _ ?_
      rw [impliedEnds_of_kind hname htag]
      exact List.mem_cons_self
    · rw [hrules] at hfold hmore
      have hhead : left.any (inTable ["head"]) = true :=
        ImpliedEnd.any_of_not_idle fun hidle => hmore (List.forall_mem_singleton.mpr hidle)
      rcases ImpliedEnd.idle_or_exists ⟨inTable ["head"], inTable ["html"]⟩ tags with
        hidle | ⟨tag, htarget, inner, hinner⟩
      · exact absurd (hfold.trans hidle) hends
      · rw [show close (inTable ["head"]) (inTable ["html"]) tags = left from hfold.symm] at hinner
        refine ⟨_, inner, tag, rfl, hinner.symm, fun hrule => ?_, hhead, .inl ⟨htarget, ?_⟩⟩
        · rw [hrules, List.mem_singleton] at hrule
          have htargets := congrArg (fun rule : ImpliedEnd => rule.target "p") hrule
          exact absurd htargets (by decide)
        · rw [List.any_cons, Bool.or_eq_true]
          exact .inl htarget

end Settled

/-- An end tag of a paragraph that ends nothing would have found no paragraph, nor would its start
tag. -/
theorem afterStart_p_of_afterEnd {name : String} {tags : List String}
    (hname : sameIgnoringCase name "p" = true) (hhtml : inForeign tags = false)
    (h : afterEnd name tags = tags) (quirks : Bool) : afterStart "p" quirks tags = tags := by
  have hlower : lower name = "p" := by simpa [sameIgnoringCase, lower] using hname
  have hvoid : Tag.isVoid name = false := by
    rw [Tag.isVoid, inTable, hlower]
    rfl
  have hidle : endOfParagraph.Idle tags := by
    rw [afterEnd, hvoid, if_neg Bool.false_ne_true, closeForeign?, hhtml,
      if_neg Bool.false_ne_true, hlower] at h
    exact h
  have hrules : impliedEnds "p" quirks = [endOfParagraph] := by cases quirks <;> rfl
  have hforeign : inForeign ("p" :: tags) = false := by
    rw [inForeign_cons, hhtml]
    rfl
  rw [afterStart_eq_self_iff hforeign, hrules]
  exact List.forall_mem_singleton.mpr hidle

end Open

/-! ## Nodes and where they stand -/

/-- The tags of the last node of a forest, of the last node in that, and so on. -/
def Forest.lastTags : Forest Content → List String
  | nil => []
  | node c children nil => c.name :: children.lastTags
  | node _ _ (node c children siblings) => (node c children siblings).lastTags

/-- A node with the tags around it, innermost first, and the trees before it, last first. -/
structure Spot where
  outer : List String
  before : List Tree
  content : Content
deriving Repr, DecidableEq

namespace Spot

/-- The start tag of the node, with just the elements around it open, ends none of them. -/
def Nested (quirks : Bool) (spot : Spot) : Prop :=
  Open.afterStart spot.content.name quirks spot.outer = spot.outer

instance (quirks : Bool) (spot : Spot) : Decidable (spot.Nested quirks) :=
  inferInstanceAs (Decidable (_ = _))

/-- The trees before a node are any number of elements of its kind, and before them a cover that is or
ends in something that hides what is around it. -/
def follows (d : Open.Displacement) : List Tree → Bool
  | [] => false
  | (last, below) :: earlier =>
    (inTable [d.cover] last.name && (last.name :: below.lastTags).any d.hides) ||
      (inTable d.kind last.name && follows d earlier)

/-- The node may stand inside an element that its start tag ends: such an element is around it, and it
comes right after what hid that element, or after others that do. -/
def isDisplaced (spot : Spot) : Bool :=
  (Open.displacement? spot.content.name).any fun d =>
    spot.outer.any (inTable d.target) && follows d spot.before

/-- The start tag of the node ends no element around it, or the node is displaced and its start tag ends
no paragraph. -/
def Settles (quirks : Bool) (spot : Spot) : Prop :=
  spot.Nested quirks ∨
    spot.isDisplaced = true ∧ Open.KeepsParagraph spot.content.name quirks spot.outer

theorem settles_of_unnamed {spot : Spot} (h : spot.content.name = "") (quirks : Bool) :
    spot.Settles quirks := by
  refine .inl ?_
  rw [Nested, h]
  exact Open.afterStart_of_impliedEnds_nil (by cases quirks <;> rfl) _

end Spot

namespace Forest

/-- The nodes of a forest inside `outer` and after `before`, in document order. -/
def spots (outer : List String) (before : List Tree) : Forest Content → List Spot
  | nil => []
  | node c children siblings =>
    ⟨outer, before, c⟩ ::
      (children.spots (c.name :: outer) [] ++ siblings.spots outer ((c, children) :: before))

/-- A forest nests well if each of its nodes does. -/
theorem wellNested_of_spots {quirks : Bool} {outer : List String} {before : List Tree}
    {f : Forest Content} (h : ∀ spot ∈ f.spots outer before, spot.Nested quirks) :
    f.WellNested quirks outer := by
  induction f generalizing outer before with
  | nil => trivial
  | node c children siblings ihc ihs =>
    rw [spots, List.forall_mem_cons, List.forall_mem_append] at h
    exact ⟨fun _ => h.1, ihc h.2.1, ihs h.2.2⟩

theorem lastTags_prependReversed (trees : List Tree) (c : Content)
    (children siblings : Forest Content) :
    (prependReversed trees (node c children siblings)).lastTags =
      (node c children siblings).lastTags := by
  induction trees generalizing c children siblings with
  | nil => rfl
  | cons tree earlier ih =>
    obtain ⟨last, below⟩ := tree
    rw [prependReversed, ih, lastTags]

end Forest

namespace Builder

/-! ## Spots of a builder -/

/-- The nodes of trees inside `outer`, given last first. -/
def treeSpots (outer : List String) : List Tree → List Spot
  | [] => []
  | (c, below) :: earlier =>
    treeSpots outer earlier ++
      ⟨outer, earlier, c⟩ :: below.spots (c.name :: outer) []

/-- The spots of trees come before those of what follows. -/
theorem spots_prependReversed (outer : List String) (trees : List Tree) (after : Forest Content) :
    (Forest.prependReversed trees after).spots outer [] =
      treeSpots outer trees ++ after.spots outer trees := by
  induction trees generalizing after with
  | nil => rfl
  | cons tree earlier ih =>
    obtain ⟨c, below⟩ := tree
    rw [Forest.prependReversed, ih, Forest.spots, treeSpots, List.append_assoc]
    rfl

/-- The children so far of the innermost of these open elements, or the trees at the top. -/
def childrenOf (top : List Tree) : List Frame → List Tree
  | [] => top
  | frame :: _ => frame.done

/-- The trees at the top and the open elements, with their children so far. -/
def spotsOf (top : List Tree) : List Frame → List Spot
  | [] => treeSpots [] top
  | frame :: outer =>
    spotsOf top outer ++
      ⟨outer.map (·.content.name), childrenOf top outer, frame.content⟩ ::
        treeSpots (frame.content.name :: outer.map (·.content.name)) frame.done

/-- The nodes built so far. -/
def spots (b : Builder) : List Spot :=
  spotsOf b.done b.frames

/-- The nodes built so far but for those in the innermost open element. -/
def enclosing (b : Builder) : List Spot :=
  match b.frames with
  | [] => []
  | frame :: outer =>
    spotsOf b.done outer ++
      [⟨outer.map (·.content.name), childrenOf b.done outer, frame.content⟩]

theorem spots_bare (b : Builder) : b.bare.spots = b.spots := rfl

@[simp]
theorem spots_observe (token : Token) (b : Builder) : (b.observe token).spots = b.spots := by
  rw [← spots_bare, bare_observe, spots_bare]

/-- A change of what the innermost open element holds leaves the spots around it. -/
theorem spots_onChildren (change : List Tree → List Tree) (b : Builder) :
    (b.onChildren change).spots = b.enclosing ++ treeSpots b.openTags (change b.children) := by
  obtain ⟨frames, done, quirks, decided⟩ := b
  cases frames with
  | nil => rfl
  | cons frame outer =>
    change spotsOf done outer ++ _ :: treeSpots _ (change frame.done) =
      (spotsOf done outer ++ [_]) ++ treeSpots _ (change frame.done)
    rw [List.append_assoc]
    rfl

/-- The spots so far are those of the open elements, then those of what is complete in the
innermost. -/
theorem spots_eq (b : Builder) : b.spots = b.enclosing ++ treeSpots b.openTags b.children := by
  have hsame : b.onChildren id = b := by
    obtain ⟨frames, done, quirks, decided⟩ := b
    cases frames <;> rfl
  have h := spots_onChildren id b
  rwa [hsame] at h

/-- A tree that is inserted adds its own spot, and those below. -/
theorem spots_insert (c : Content) (below : Forest Content) (b : Builder) :
    (b.insert (c, below)).spots =
      b.spots ++ ⟨b.openTags, b.children, c⟩ :: below.spots (c.name :: b.openTags) [] := by
  rw [insert, spots_onChildren, spots_eq, treeSpots, List.append_assoc]

/-- An element that is opened adds its spot. -/
theorem spots_opened (c : Content) (b : Builder) :
    (b.opened c).spots = b.spots ++ [⟨b.openTags, b.children, c⟩] := by
  obtain ⟨frames, done, quirks, decided⟩ := b
  cases frames <;> rfl

/-- Ending elements changes nothing. -/
@[simp]
theorem spots_close (n : Nat) (b : Builder) : (b.close n).spots = b.spots := by
  induction n generalizing b with
  | zero => rfl
  | succ n ih =>
    rw [close]
    cases hframes : b.frames with
    | nil => rfl
    | cons frame outer =>
      simp only
      rw [ih, spots_insert, spots_prependReversed, Forest.spots, List.append_nil, spots, spots,
        hframes]
      obtain ⟨frames, done, quirks, decided⟩ := b
      cases outer <;> rfl

/-- **The nodes at the end are those of the page.** -/
theorem spots_forest (b : Builder) : b.forest.spots [] [] = b.spots := by
  rw [← spots_close b.frames.length b, spots, frames_close_length, forest, spots_prependReversed,
    Forest.spots, List.append_nil, spotsOf]

/-! ## Tokens -/

/-- The tags of the last node so far in the innermost open element, of the last node in that, and so
on. -/
def lastTags (b : Builder) : List String :=
  (Forest.prependReversed b.children .nil).lastTags

/-- The innermost open element, when it ends, is the last child of the next, and stands where it
stood. -/
theorem close_one_of_openTags {b : Builder} {tag : String} {outer : List String}
    (h : b.openTags = tag :: outer) :
    ∃ c before, c.name = tag ∧ ⟨outer, before, c⟩ ∈ b.spots ∧
      (b.close 1).children = (c, Forest.prependReversed b.children .nil) :: before := by
  obtain ⟨frames, done, quirks, decided⟩ := b
  obtain ⟨frame, frames, rfl, rfl, rfl⟩ := List.map_eq_cons_iff.mp h
  refine ⟨frame.content, childrenOf done frames, rfl, ?_, ?_⟩
  · exact List.mem_append_right _ List.mem_cons_self
  · cases frames <;> rfl

/-- Elements that end are the last nodes, one inside the other. -/
theorem lastTags_close {b : Builder} {inner outer : List String} (h : b.openTags = inner ++ outer) :
    (b.close inner.length).lastTags = inner.reverse ++ b.lastTags := by
  induction inner generalizing b with
  | nil => rfl
  | cons tag inner ih =>
    obtain ⟨c, before, hname, -, hchildren⟩ := close_one_of_openTags h
    have hopen : (b.close 1).openTags = inner ++ outer := by
      rw [openTags_close, h]
      rfl
    have hlast : (b.close 1).lastTags = tag :: b.lastTags := by
      rw [lastTags, hchildren, Forest.prependReversed, Forest.lastTags_prependReversed,
        Forest.lastTags, hname]
      rfl
    rw [List.length_cons, Nat.add_comm, close_add, ih hopen, hlast, List.reverse_cons,
      List.append_assoc]
    rfl

/-- Of several elements that end, the outermost is the last child of what is still open, and stands
where it stood. It ends in the others. -/
theorem exists_spot_of_close {b : Builder} {inner left : List String} {tag : String}
    (h : b.openTags = inner ++ tag :: left) :
    ∃ c below before, c.name = tag ∧ ⟨left, before, c⟩ ∈ b.spots ∧
      (b.close (inner.length + 1)).children = (c, below) :: before ∧
      below.lastTags = inner.reverse ++ b.lastTags := by
  have hopen : (b.close inner.length).openTags = tag :: left := by
    rw [openTags_close, h, List.drop_left]
  obtain ⟨c, before, hname, hspot, hchildren⟩ := close_one_of_openTags hopen
  rw [spots_close] at hspot
  rw [← close_add] at hchildren
  exact ⟨c, _, before, hname, hspot, hchildren, lastTags_close h⟩

section Step

variable {b : Builder} {quirks : Bool}

/-- No start tag of an open element would end another, items and `body` aside. -/
theorem settled_openTags (h : ∀ spot ∈ b.spots, spot.Settles quirks) :
    Open.Settled quirks b.openTags := by
  rintro tag outer ⟨inner, hinner⟩
  obtain ⟨c, below, before, rfl, hspot, -, -⟩ := exists_spot_of_close hinner.symm
  refine (h _ hspot).imp_right fun ⟨hdisplaced, hkeeps⟩ => ⟨fun hnone => ?_, hkeeps⟩
  rw [Spot.isDisplaced, hnone] at hdisplaced
  cases hdisplaced

/-- **A start tag puts its element where it would end nothing if it came again**, or displaced. -/
theorem settles_of_afterStart (h : ∀ spot ∈ b.spots, spot.Settles quirks) {c : Content}
    {inner left : List String} (hopen : b.openTags = inner ++ left)
    (hleft : Open.afterStart c.name quirks b.openTags = left) :
    Spot.Settles quirks ⟨left, (b.close inner.length).children, c⟩ := by
  have hagain := (settled_openTags h).afterStart_again c.name
  simp only [hleft] at hagain
  refine hagain.imp_right ?_
  rintro ⟨d, ended, tag, hd, htags, hkeeps, haround, hwhy⟩
  have hinner : inner = ended ++ [tag] := by
    rw [hopen, List.append_cons] at htags
    exact List.append_cancel_right htags
  obtain ⟨last, below, before, rfl, hspot, hchildren, hlast⟩ := exists_spot_of_close htags
  refine ⟨?_, hkeeps⟩
  rw [Spot.isDisplaced, hd, Option.any_some, haround, Bool.true_and, hinner, List.length_append,
    List.length_singleton, hchildren, Spot.follows, Bool.or_eq_true, Bool.and_eq_true,
    Bool.and_eq_true]
  refine hwhy.imp (And.imp_right fun hhides => ?_) fun ⟨hkind, hmore⟩ => ⟨hkind, ?_⟩
  · rw [List.any_cons] at hhides ⊢
    rw [hlast, List.any_append, List.any_reverse, ← Bool.or_assoc, hhides, Bool.true_or]
  · -- The item before is displaced, too, and by the same siblings.
    have hdisplaced := ((h _ hspot).resolve_left hmore).1
    rw [Spot.isDisplaced, Open.displacement?_of_kind hd hkind, Option.any_some,
      Bool.and_eq_true] at hdisplaced
    exact hdisplaced.2

/-- A text that joins the one before it stands where that stood. -/
theorem settles_joinText {outer : List String} {trees : List Tree}
    (h : ∀ spot ∈ treeSpots outer trees, spot.Settles quirks) (value : String) :
    ∀ spot ∈ treeSpots outer (joinText value trees), spot.Settles quirks := by
  have hleaf (earlier : List Tree) :
      Spot.Settles quirks ⟨outer, earlier, .leaf .text value⟩ :=
    Spot.settles_of_unnamed rfl quirks
  cases trees with
  | nil => exact List.forall_mem_singleton.mpr (hleaf [])
  | cons tree earlier =>
    obtain ⟨last, below⟩ := tree
    rw [joinText]
    split
    · rw [treeSpots, List.forall_mem_append, List.forall_mem_cons] at h ⊢
      exact h
    · rw [treeSpots, List.forall_mem_append]
      exact ⟨h, List.forall_mem_singleton.mpr (hleaf _)⟩

/-- **What a token does leaves all nodes in place**, and a new one stands where its start tag would end
nothing, or displaced. -/
theorem Effect.settles {b' : Builder} {token : Token} {raw : Option String}
    (heffect : b.Effect token b' raw) (h : ∀ spot ∈ b.spots, spot.Settles quirks)
    (hquirks : ∀ tag, token = .startTag tag → b.quirks = quirks) :
    ∀ spot ∈ b'.spots, spot.Settles quirks := by
  have hobserved : ∀ spot ∈ (b.observe token).spots, spot.Settles quirks := by rwa [spots_observe]
  have hstart {tag : StartTag} {n : Nat} (htoken : token = .startTag tag) {c : Content}
      (hname : c.name = tag.name)
      (hleft : Open.afterStart tag.name b.quirks b.openTags = b.openTags.drop n)
      (hcount : n ≤ b.openTags.length) :
      Spot.Settles quirks ⟨((b.observe token).close n).openTags,
        ((b.observe token).close n).children, c⟩ := by
    have hopen : (b.observe token).openTags = b.openTags.take n ++ b.openTags.drop n := by
      rw [openTags_observe, List.take_append_drop]
    have hafter : Open.afterStart c.name quirks (b.observe token).openTags = b.openTags.drop n := by
      rw [openTags_observe, hname, ← hquirks tag htoken, hleft]
    have hsettles := settles_of_afterStart hobserved hopen hafter
    rwa [List.length_take_of_le hcount, ← openTags_observe token b, ← openTags_close] at hsettles
  cases heffect with
  | text value =>
    rw [spots_eq, List.forall_mem_append] at hobserved
    rw [addText, spots_onChildren, List.forall_mem_append]
    exact ⟨hobserved.1, settles_joinText hobserved.2 value⟩
  | @leaf token c hleaf =>
    rw [spots_insert, List.forall_mem_append]
    refine ⟨hobserved, List.forall_mem_singleton.mpr (Spot.settles_of_unnamed ?_ quirks)⟩
    cases token <;> cases hleaf <;> rfl
  | leafTag tag n selfClosing _ hleft hcount =>
    rw [spots_insert, spots_close, List.forall_mem_append]
    exact ⟨hobserved, List.forall_mem_singleton.mpr (hstart rfl rfl hleft hcount)⟩
  | openTag tag n selfClosing _ hleft hcount =>
    rw [spots_opened, spots_close, List.forall_mem_append]
    exact ⟨hobserved, List.forall_mem_singleton.mpr (hstart rfl rfl hleft hcount)⟩
  | lineBreak name _ _ =>
    rw [spots_insert, List.forall_mem_append]
    exact ⟨hobserved, List.forall_mem_singleton.mpr (.inl (Open.afterStart_br quirks _))⟩
  | endTag name n _ _ _ => rwa [spots_close]
  | paragraph name hname hhtml hends =>
    rw [spots_insert, List.forall_mem_append, openTags_observe]
    exact ⟨hobserved, List.forall_mem_singleton.mpr
      (.inl (Open.afterStart_p_of_afterEnd hname hhtml hends quirks))⟩
  | dropped name _ _ _ => exact hobserved

end Step

/-- **So does a run**, by the quirks mode that it ends with: this is settled when the first start tag
has come. -/
theorem Reads.settles {b final : Builder} {raw : Option String} {input : List Char}
    {events : List Event} (hreads : Reads b raw input events final)
    (h : ∀ spot ∈ b.spots, spot.Settles final.quirks) :
    ∀ spot ∈ final.spots, spot.Settles final.quirks := by
  induction hreads with
  | nil _ => exact h
  | cons hnext heffect hreads ih =>
    refine ih (heffect.settles h ?_)
    rintro tag rfl
    obtain ⟨hquirks, hdecided⟩ := heffect.observed
    exact hquirks.symm.trans (hreads.quirks_of_decided hdecided).symm

end Builder

namespace Document

/-- **A start tag seen again ends nothing around its element.** In a page that is read, this holds of
every node that is not displaced: of all but items inside an item that come after a paragraph that ends
in something that hides items, or after other items that do, and `body` right after a `head` and inside
another. If no node is displaced, the page nests well. -/
theorem nested_or_displaced_of_parse {maxDepth : Nat} {page : String} {doc : Document}
    (h : Document.parse maxDepth page = .ok doc) :
    ∃ d f, Draft.run maxDepth {} none page.toList = .ok d ∧ doc = d.doc ∧
      doc.tree = .ok (.node .document f .nil) ∧
      (∀ spot ∈ f.spots [] [], spot.Nested d.quirks ∨ spot.isDisplaced = true) ∧
      ((∀ spot ∈ f.spots [] [], spot.isDisplaced = false) → f.WellNested d.quirks []) := by
  obtain ⟨b, hrun, hreads, rfl⟩ := exists_reads_of_parse h
  obtain ⟨d, hdraft, hshows, hdoc⟩ := Draft.exists_run_of_run hrun
  have hspots : ∀ spot ∈ b.forest.spots [] [], spot.Settles b.quirks := by
    rw [Builder.spots_forest]
    exact hreads.settles fun spot hspot => by cases hspot
  rw [← hshows.quirks_eq] at hspots
  refine ⟨d, b.forest, hdraft, hdoc.symm, tree_ofForest b.forest,
    fun spot hspot => (hspots spot hspot).imp_right And.left, fun hnone => ?_⟩
  have hnested : ∀ spot ∈ b.forest.spots [] [], spot.Nested d.quirks := by
    intro spot hspot
    refine (hspots spot hspot).resolve_right fun hdisplaced => ?_
    rw [hnone spot hspot] at hdisplaced
    cases hdisplaced.1
  exact Forest.wellNested_of_spots hnested

/-- What a builder shows of the quirks mode of a page and of its tree holds of the page. -/
theorem exists_of_run_log (maxDepth : Nat) (page : String) (P : Bool → Forest Content → Prop)
    {events : List Builder.Event}
    (h : ∃ b, (Builder.run maxDepth {} none page.toList = .ok b ∧
      Builder.log maxDepth {} none page.toList = events) ∧ P b.quirks b.forest) :
    ∃ d f, Draft.run maxDepth {} none page.toList = .ok d ∧
      Document.parse maxDepth page = .ok d.doc ∧ d.doc.tree = .ok (.node .document f .nil) ∧
      P d.quirks f := by
  obtain ⟨b, ⟨hrun, -⟩, hb⟩ := h
  obtain ⟨d, hdraft, hshows, hdoc⟩ := Draft.exists_run_of_run hrun
  exact ⟨d, b.forest, hdraft, hdoc ▸ parse_of_run hrun, hdoc ▸ tree_ofForest b.forest,
    hshows.quirks_eq ▸ hb⟩

/-- In an ordinary page an item comes after a paragraph that hides nothing, and the next one ends it
together with the paragraph in it. All nodes nest well, `body` after `head` too. -/
theorem nested_or_displaced_of_parse_items :
    ∃ d f, Document.parse 8 "<html><head><body><ul><p><li><p><li>" = .ok d.doc ∧
      Draft.run 8 {} none "<html><head><body><ul><p><li><p><li>".toList = .ok d ∧
      d.doc.tree = .ok (.node .document f .nil) ∧
      (∀ spot ∈ f.spots [] [], spot.isDisplaced = false) ∧ f.WellNested d.quirks [] := by
  obtain ⟨d, f, hdraft, hparse, htree, hnone⟩ := exists_of_run_log 8
    "<html><head><body><ul><p><li><p><li>"
    (fun _ f => ∀ spot ∈ f.spots [] [], spot.isDisplaced = false) ⟨_,
      Builder.run_log_of_step "<head><body><ul><p><li><p><li>".toList
        (Builder.next?_bareTag "html" (by decide) _) rfl <|
      Builder.run_log_of_step "<body><ul><p><li><p><li>".toList
        (Builder.next?_bareTag "head" (by decide) _) rfl <|
      Builder.run_log_of_step "<ul><p><li><p><li>".toList
        (Builder.next?_bareTag "body" (by decide) _) rfl <|
      Builder.run_log_of_step "<p><li><p><li>".toList
        (Builder.next?_bareTag "ul" (by decide) _) rfl <|
      Builder.run_log_of_step "<li><p><li>".toList (Builder.next?_bareTag "p" (by decide) _) rfl <|
      Builder.run_log_of_step "<p><li>".toList (Builder.next?_bareTag "li" (by decide) _) rfl <|
      Builder.run_log_of_step "<li>".toList (Builder.next?_bareTag "p" (by decide) _) rfl <|
      Builder.run_log_of_step [] (Builder.next?_bareTag "li" (by decide) _) rfl
        Builder.run_log_nil, by decide⟩
  obtain ⟨d', f', hdraft', -, htree', -, hnested⟩ := nested_or_displaced_of_parse hparse
  rw [hdraft] at hdraft'
  cases hdraft'
  rw [htree] at htree'
  cases htree'
  exact ⟨d, f, hparse, hdraft, htree, hnone, hnested hnone⟩

/-- **Displaced nodes do occur.** A row in a paragraph hides the item around both from the start tag of
the next item, and the paragraph is ended all the same; `body` ends the inner of two heads. -/
theorem displaced_not_nested :
    (∃ d f, Draft.run 8 {} none "<li><p><tr><li>".toList = .ok d ∧
      Document.parse 8 "<li><p><tr><li>" = .ok d.doc ∧ d.doc.tree = .ok (.node .document f .nil) ∧
      ∃ spot ∈ f.spots [] [], spot.content = .element "li" .empty false ∧ ¬ spot.Nested d.quirks) ∧
    ∃ d f, Draft.run 8 {} none "<head><head><body>".toList = .ok d ∧
      Document.parse 8 "<head><head><body>" = .ok d.doc ∧
      d.doc.tree = .ok (.node .document f .nil) ∧
      ∃ spot ∈ f.spots [] [], spot.content = .element "body" .empty false ∧
        ¬ spot.Nested d.quirks := by
  constructor
  · exact exists_of_run_log 8 "<li><p><tr><li>"
      (fun quirks f => ∃ spot ∈ f.spots [] [],
        spot.content = .element "li" .empty false ∧ ¬ spot.Nested quirks) ⟨_,
      Builder.run_log_of_step "<p><tr><li>".toList (Builder.next?_bareTag "li" (by decide) _) rfl <|
      Builder.run_log_of_step "<tr><li>".toList (Builder.next?_bareTag "p" (by decide) _) rfl <|
      Builder.run_log_of_step "<li>".toList (Builder.next?_bareTag "tr" (by decide) _) rfl <|
      Builder.run_log_of_step [] (Builder.next?_bareTag "li" (by decide) _) rfl
        Builder.run_log_nil, by decide⟩
  · exact exists_of_run_log 8 "<head><head><body>"
      (fun quirks f => ∃ spot ∈ f.spots [] [],
        spot.content = .element "body" .empty false ∧ ¬ spot.Nested quirks) ⟨_,
      Builder.run_log_of_step "<head><body>".toList
        (Builder.next?_bareTag "head" (by decide) _) rfl <|
      Builder.run_log_of_step "<body>".toList (Builder.next?_bareTag "head" (by decide) _) rfl <|
      Builder.run_log_of_step [] (Builder.next?_bareTag "body" (by decide) _) rfl
        Builder.run_log_nil, by decide⟩

end Document

end HtmlMinify
