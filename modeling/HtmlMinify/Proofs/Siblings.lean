import HtmlMinify.Proofs.Whitespace

/-!
# Siblings that passes leave alone

What the passes that remove comments and whitespace do to the children of one node, and what is left
for them to do afterwards. After each pass adjacent texts are joined and empty ones go, so a text
stands between nodes that are none. This is why these passes do not undo each other's work: a text
that goes takes no neighbour from another text.

## Main statements

* `Siblings.joined_join`, `Siblings.join_of_joined`: joining texts, and what it leaves alone.
* `Comments.settled_join_kept`: once comments are removed and texts joined, no comment goes.
* `Comments.Settled.tidies`: that stays so when texts are tidied.
* `Whitespace.Trimmed.filter`: trimmed texts stay trimmed when other texts go.
-/

namespace HtmlMinify

namespace Siblings

/-! ## Joining texts -/

/-- A text, put at the end of the one before it, if there is one. -/
def joinTo (open? : Option Content) (c : Content) : Content :=
  match open? with
  | none => c
  | some first => { first with value := first.value ++ c.value }

/-- Siblings with runs of texts joined and empty texts dropped, given the text that the next one
joins. -/
def join (open? : Option Content) : List Content → List Content
  | [] => open?.toList
  | c :: rest =>
    if !c.isText then open?.toList ++ c :: join none rest
    else if c.value.isEmpty then join open? rest
    else join (some (joinTo open? c)) rest

/-- A text that joins another is a text. -/
theorem isText_joinTo {open? : Option Content} (hopen : ∀ t ∈ open?, t.isText = true)
    {c : Content} (hc : c.isText = true) : (joinTo open? c).isText = true := by
  cases open? with
  | none => exact hc
  | some first => exact hopen first rfl

/-- No text is empty, and none follows another. -/
structure Joined (l : List Content) : Prop where
  filled : ∀ c ∈ l, c.isText = true → c.value.isEmpty = false
  apart : l.IsChain fun a b => a.isText = false ∨ b.isText = false

/-- What follows in joined siblings is joined. -/
theorem Joined.tail {c : Content} {l : List Content} (h : Joined (c :: l)) : Joined l :=
  ⟨fun d hd => h.filled d (by simp [hd]), (List.isChain_cons.mp h.apart).2⟩

/-- What follows a text among joined siblings is none. -/
theorem Joined.isText_head? {c d : Content} {l : List Content} (h : Joined (c :: l))
    (hc : c.isText = true) (hd : d ∈ l.head?) : d.isText = false :=
  ((List.isChain_cons.mp h.apart).1 d hd).resolve_left (by simp [hc])

/-- Joined siblings stay so after a node that is no text. -/
theorem joined_cons_of_not_text {c : Content} {l : List Content} (hc : c.isText = false)
    (h : Joined l) : Joined (c :: l) := by
  refine ⟨fun d hd htext => ?_, h.apart.cons fun _ _ => .inl hc⟩
  rcases List.mem_cons.mp hd with rfl | hd
  · rw [hc] at htext
    cases htext
  · exact h.filled d hd htext

/-- They stay so after an open text and a node that is none. -/
theorem joined_toList_append_cons {open? : Option Content} {c : Content} {l : List Content}
    (hopen : ∀ t ∈ open?, t.isText = true → t.value.isEmpty = false) (hc : c.isText = false)
    (h : Joined l) : Joined (open?.toList ++ c :: l) := by
  have hcons := joined_cons_of_not_text hc h
  cases open? with
  | none => exact hcons
  | some t =>
    refine ⟨fun d hd htext => ?_, hcons.apart.cons fun d hd => ?_⟩
    · rcases List.mem_cons.mp hd with rfl | hd
      · exact hopen d rfl htext
      · exact hcons.filled d hd htext
    · cases hd
      exact .inr hc

/-- **Joined siblings are joined.** -/
theorem joined_join {open? : Option Content}
    (hopen : ∀ t ∈ open?, t.isText = true → t.value.isEmpty = false) (l : List Content) :
    Joined (join open? l) := by
  induction l generalizing open? with
  | nil =>
    cases open? with
    | none => exact ⟨by simp [join], .nil⟩
    | some t => exact ⟨by simpa [join] using hopen, .singleton t⟩
  | cons c l ih =>
    rw [join]
    cases hc : c.isText with
    | false => exact joined_toList_append_cons hopen hc (ih (by simp))
    | true =>
      cases hvalue : c.value.isEmpty with
      | true => exact ih hopen
      | false =>
        refine ih fun t ht _ => ?_
        cases ht
        cases open? with
        | none => exact hvalue
        | some first =>
          have hne : c.value ≠ "" := by simpa using hvalue
          simp [joinTo, hne]

/-- An open text stays as it is if no text follows. -/
theorem join_some_of_head? {c : Content} {l : List Content}
    (h : ∀ d ∈ l.head?, d.isText = false) : join (some c) l = c :: join none l := by
  cases l with
  | nil => rfl
  | cons d l => simp [join, h d rfl]

/-- Where no text follows another, only empty texts go. -/
theorem join_of_apart {l : List Content}
    (h : l.IsChain fun a b => a.isText = false ∨ b.isText = false) :
    join none l = l.filter fun c => !(c.isText && c.value.isEmpty) := by
  induction l with
  | nil => rfl
  | cons c l ih =>
    obtain ⟨hnext, hrest⟩ := List.isChain_cons.mp h
    rw [join, List.filter_cons]
    cases hc : c.isText with
    | false => simp [ih hrest]
    | true =>
      have hhead : ∀ d ∈ l.head?, d.isText = false :=
        fun d hd => (hnext d hd).resolve_left (by simp [hc])
      cases hvalue : c.value.isEmpty with
      | true => simp [ih hrest]
      | false => simp [joinTo, join_some_of_head? hhead, ih hrest]

/-- **Joining changes nothing among joined siblings.** -/
theorem join_of_joined {l : List Content} (h : Joined l) : join none l = l := by
  rw [join_of_apart h.apart, List.filter_eq_self]
  intro c hc
  cases htext : c.isText with
  | false => rfl
  | true => simp [h.filled c hc htext]

/-- The open text grows at its end. -/
theorem exists_join_some (c : Content) (l : List Content) :
    ∃ more rest, join (some c) l = { c with value := c.value ++ more } :: rest := by
  induction l generalizing c with
  | nil => exact ⟨"", [], by simp [join]⟩
  | cons d l ih =>
    rw [join]
    cases hd : d.isText with
    | false => exact ⟨"", d :: join none l, by simp⟩
    | true =>
      cases hvalue : d.value.isEmpty with
      | true => exact ih c
      | false =>
        obtain ⟨more, rest, heq⟩ := ih { c with value := c.value ++ d.value }
        exact ⟨d.value ++ more, rest, by simp [joinTo, heq, String.append_assoc]⟩

/-- Joining texts leaves all other nodes. -/
theorem mem_join_of_not_text {open? : Option Content} (hopen : ∀ t ∈ open?, t.isText = true)
    {l : List Content} {c : Content} (h : c ∈ join open? l) (hc : c.isText = false) : c ∈ l := by
  induction l generalizing open? with
  | nil =>
    cases open? with
    | none => cases h
    | some t =>
      rw [join, Option.toList_some, List.mem_singleton] at h
      rw [h, hopen t rfl] at hc
      cases hc
  | cons d l ih =>
    rw [join] at h
    cases hd : d.isText with
    | false =>
      simp only [hd, Bool.not_false, if_true, List.mem_append, Option.mem_toList,
        List.mem_cons] at h
      rcases h with h | rfl | h
      · rw [hopen c h] at hc
        cases hc
      · exact List.mem_cons_self
      · exact List.mem_cons_of_mem d (ih (by simp) h)
    | true =>
      simp only [hd, Bool.not_true, Bool.false_eq_true, if_false] at h
      cases hvalue : d.value.isEmpty with
      | true =>
        rw [hvalue, if_pos rfl] at h
        exact List.mem_cons_of_mem d (ih hopen h)
      | false =>
        simp only [hvalue, Bool.false_eq_true, if_false] at h
        refine List.mem_cons_of_mem d (ih (fun t ht => ?_) h)
        cases ht
        exact isText_joinTo hopen hd

/-! ### With their ids -/

/-- A text, put at the end of the one before it, if there is one, which keeps its id. -/
def joinNodeTo (open? : Option (NodeId × Content)) (x : NodeId × Content) : NodeId × Content :=
  match open? with
  | none => x
  | some first => (first.1, { first.2 with value := first.2.value ++ x.2.value })

/-- Siblings with runs of texts joined and empty texts dropped, given the text that the next one
joins. -/
def joinNodes (open? : Option (NodeId × Content)) :
    List (NodeId × Content) → List (NodeId × Content)
  | [] => open?.toList
  | x :: rest =>
    if !x.2.isText then open?.toList ++ x :: joinNodes none rest
    else if x.2.value.isEmpty then joinNodes open? rest
    else joinNodes (some (joinNodeTo open? x)) rest

section JoinNodes

variable {open? : Option (NodeId × Content)} {x : NodeId × Content} {l : List (NodeId × Content)}

/-- A node that is no text ends a text that is open. -/
theorem joinNodes_cons_of_not_text (hx : x.2.isText = false) :
    joinNodes open? (x :: l) = open?.toList ++ x :: joinNodes none l := by
  rw [joinNodes, hx]
  rfl

/-- Empty texts are dropped. -/
theorem joinNodes_cons_of_empty (hx : x.2.isText = true) (hempty : x.2.value.isEmpty = true) :
    joinNodes open? (x :: l) = joinNodes open? l := by
  rw [joinNodes, hx, hempty]
  rfl

/-- Any other text joins the one that is open. -/
theorem joinNodes_cons_of_filled (hx : x.2.isText = true) (hfilled : x.2.value.isEmpty = false) :
    joinNodes open? (x :: l) = joinNodes (some (joinNodeTo open? x)) l := by
  rw [joinNodes, hx, hfilled]
  rfl

/-- Ids aside, these are the joined siblings. -/
theorem map_snd_joinNodes (open? : Option (NodeId × Content)) (l : List (NodeId × Content)) :
    (joinNodes open? l).map (·.2) = join (open?.map (·.2)) (l.map (·.2)) := by
  induction l generalizing open? with
  | nil => cases open? <;> rfl
  | cons x l ih =>
    rw [List.map_cons, join]
    cases hx : x.2.isText with
    | false =>
      rw [joinNodes_cons_of_not_text hx, List.map_append, List.map_cons, ih]
      cases open? <;> rfl
    | true =>
      cases hvalue : x.2.value.isEmpty with
      | true =>
        rw [joinNodes_cons_of_empty hx hvalue, ih]
        rfl
      | false =>
        rw [joinNodes_cons_of_filled hx hvalue, ih]
        cases open? <;> rfl

theorem isText_joinNodeTo (hopen : ∀ t ∈ open?, t.2.isText = true) (hx : x.2.isText = true) :
    (joinNodeTo open? x).2.isText = true := by
  cases open? with
  | none => exact hx
  | some first => exact hopen first rfl

/-- Joining texts thins siblings: it edits one, and drops the others. -/
theorem thins_toList_append_joinNodes {sorts : Bool} (hopen : ∀ t ∈ open?, t.2.isText = true)
    (l : List (NodeId × Content)) : Thins sorts (open?.toList ++ l) (joinNodes open? l) := by
  induction l generalizing open? with
  | nil =>
    rw [List.append_nil]
    exact .refl _
  | cons x l ih =>
    cases hx : x.2.isText with
    | false =>
      rw [joinNodes_cons_of_not_text hx]
      have hrest : Thins sorts l (joinNodes none l) := @ih none (by simp)
      exact .append_left _ (.keep x.1 (.refl _) hrest)
    | true =>
      have hgoes : x.2.mayGo = true := Content.mayGo_of_isText hx
      cases hvalue : x.2.value.isEmpty with
      | true =>
        rw [joinNodes_cons_of_empty hx hvalue]
        exact (Thins.append_left _ (.drop hgoes (.refl l))).trans (ih hopen)
      | false =>
        rw [joinNodes_cons_of_filled hx hvalue]
        have hrest := @ih (some (joinNodeTo open? x)) fun t ht => by
          cases ht
          exact isText_joinNodeTo hopen hx
        cases open? with
        | none => exact hrest
        | some first =>
          refine Thins.trans (.keep first.1 (.of_text (hopen first rfl) _) ?_) hrest
          exact .drop hgoes (.refl l)

/-- Some texts go when siblings are joined, and the others stay in order. -/
theorem thins_joinNodes {sorts : Bool} (l : List (NodeId × Content)) :
    Thins sorts l (joinNodes none l) :=
  @thins_toList_append_joinNodes none sorts (by simp) l

end JoinNodes

end Siblings

namespace Comments

open Siblings

/-- A comment is no text. -/
theorem isText_of_isRemovable {c : Content} (h : isRemovable c = true) : c.isText = false := by
  simp only [isRemovable, Bool.and_eq_true, decide_eq_true_eq] at h
  rw [Content.isText, h.1]
  rfl

theorem isRemovable_of_isText {c : Content} (h : c.isText = true) : isRemovable c = false := by
  cases hc : isRemovable c with
  | false => rfl
  | true =>
    rw [isText_of_isRemovable hc] at h
    cases h

/-- Comments may go. -/
theorem mayGo_of_isRemovable {c : Content} (h : isRemovable c = true) : c.mayGo = true := by
  simp only [isRemovable, Bool.and_eq_true, decide_eq_true_eq] at h
  rw [Content.mayGo, h.1]
  simp

/-! ## Removing comments -/

/-- The siblings that stay, given whether the text before them ends in an open reference. -/
def kept (openReference : Bool) : List Content → List Content
  | [] => []
  | c :: rest =>
    if c.isText then c :: kept (endsInOpenReference c.value) rest
    else if !isRemovable c then c :: kept false rest
    else if openReference && nextContinues rest then c :: kept false rest
    else kept openReference rest

/-- Removing comments leaves the other siblings in order. -/
theorem sublist_kept (b : Bool) (l : List Content) : (kept b l).Sublist l := by
  induction l generalizing b with
  | nil => exact .slnil
  | cons c l ih =>
    rw [kept]
    split
    · exact .cons_cons _ (ih _)
    · split
      · exact .cons_cons _ (ih _)
      · split
        · exact .cons_cons _ (ih _)
        · exact .cons _ (ih _)

/-- The comments to remove are some of the siblings. -/
theorem sublist_removable (b : Bool) (l : List (NodeId × Node)) :
    (removable b l).Sublist (l.map (·.1)) := by
  induction l generalizing b with
  | nil => exact .slnil
  | cons child l ih =>
    rw [removable, List.map_cons]
    split
    · exact .cons _ (ih _)
    · split
      · exact .cons _ (ih _)
      · split
        · exact .cons _ (ih _)
        · exact .cons_cons _ (ih _)

/-- What is listed to go is a comment. -/
theorem exists_of_mem_removable {b : Bool} {l : List (NodeId × Node)} {id : NodeId}
    (h : id ∈ removable b l) : ∃ node, (id, node) ∈ l ∧ isRemovable node.toContent = true := by
  induction l generalizing b with
  | nil => cases h
  | cons child l ih =>
    obtain ⟨id', node⟩ := child
    have hlater : ∀ {b}, id ∈ removable b l →
        ∃ node', (id, node') ∈ (id', node) :: l ∧ isRemovable node'.toContent = true := by
      intro b hmem
      obtain ⟨node', hmem', hremovable⟩ := ih hmem
      exact ⟨node', List.mem_cons_of_mem _ hmem', hremovable⟩
    rw [removable] at h
    split at h
    · exact hlater h
    split at h
    · exact hlater h
    next hremovable =>
    split at h
    · exact hlater h
    rcases List.mem_cons.mp h with rfl | h
    · exact ⟨node, List.mem_cons_self, by simpa using hremovable⟩
    · exact hlater h

/-- The siblings that stay are those that are not listed to go. -/
theorem map_filter_removable {l : List (NodeId × Node)} (hl : (l.map (·.1)).Nodup) (b : Bool) :
    (l.filter fun child => !(removable b l).contains child.1).map (·.2.toContent) =
      kept b (l.map (·.2.toContent)) := by
  induction l generalizing b with
  | nil => rfl
  | cons child l ih =>
    obtain ⟨id, node⟩ := child
    rw [List.map_cons, List.nodup_cons] at hl
    have hstays : ∀ b, (removable b l).contains id = false := by
      intro b
      rw [Bool.eq_false_iff, ne_eq, List.contains_iff_mem]
      exact fun hmem => hl.1 ((sublist_removable b l).subset hmem)
    have hhere : ∀ b, (((id, node) :: l).filter
        fun child => !(removable b l).contains child.1).map (·.2.toContent) =
          node.toContent :: kept b (l.map (·.2.toContent)) := by
      intro b
      rw [List.filter_cons, if_pos (by rw [hstays b]; rfl), List.map_cons, ih hl.2]
    have hothers : ∀ child ∈ l, (child.1 == id) = false := by
      intro child hchild
      rw [beq_eq_false_iff_ne]
      exact fun hid => hl.1 (List.mem_map.mpr ⟨child, hchild, hid⟩)
    rw [List.map_cons, kept, removable]
    cases htext : node.isText with
    | true => exact hhere _
    | false =>
      cases hremovable : isRemovable node.toContent with
      | false => exact hhere _
      | true =>
        cases hkeep : b && nextContinues (l.map (·.2.toContent)) with
        | true => exact hhere _
        | false =>
          -- The comment goes; its id is no other sibling's, so these stay as if it were not listed.
          rw [← ih hl.2 b]
          simp only [Bool.false_eq_true, if_false, Bool.not_true, List.filter_cons,
            List.contains_cons, beq_self_eq_true, Bool.true_or]
          congr 1
          refine List.filter_congr fun child hchild => ?_
          rw [hothers child hchild, Bool.false_or]

/-- Each comment that could go stands between a text with an open reference and one that goes on
with it. -/
def Settled (openReference : Bool) : List Content → Prop
  | [] => True
  | c :: rest =>
    (isRemovable c = true → openReference = true ∧
      (rest.head?.any fun t => t.isText && continuesReference t.value) = true) ∧
    Settled (c.isText && endsInOpenReference c.value) rest

/-- If a text that goes on with a reference comes next, the next text does so. -/
theorem nextContinues_of_head? {l : List Content}
    (h : (l.head?.any fun t => t.isText && continuesReference t.value) = true) :
    nextContinues l = true := by
  cases l with
  | nil => simp at h
  | cons t l =>
    rw [List.head?_cons, Option.any_some, Bool.and_eq_true] at h
    rw [nextContinues, isRemovable_of_isText h.1, if_neg Bool.false_ne_true, h.1, h.2]
    rfl

/-- **Among settled siblings no comment goes.** -/
theorem removable_of_settled {l : List (NodeId × Node)} {b : Bool}
    (h : Settled b (l.map (·.2.toContent))) : removable b l = [] := by
  induction l generalizing b with
  | nil => rfl
  | cons child l ih =>
    obtain ⟨id, node⟩ := child
    obtain ⟨hcomment, hrest⟩ := h
    rw [removable]
    cases htext : node.isText with
    | true =>
      rw [htext, Bool.true_and] at hrest
      exact ih hrest
    | false =>
      rw [htext, Bool.false_and] at hrest
      cases hremovable : isRemovable node.toContent with
      | false => simpa using ih hrest
      | true =>
        obtain ⟨hopen, hnext⟩ := hcomment hremovable
        simp [hopen, nextContinues_of_head? hnext, ih hrest]

/-- Siblings are settled after an open text and a node, if a comment there keeps a reference
apart. -/
theorem settled_toList_append_cons {open? : Option Content} (hopen : ∀ t ∈ open?, t.isText = true)
    {c : Content} {l : List Content} {b : Bool} (hc : c.isText = false)
    (hcomment : isRemovable c = true → (∃ t ∈ open?, endsInOpenReference t.value = true) ∧
      (l.head?.any fun t => t.isText && continuesReference t.value) = true)
    (hl : Settled false l) : Settled b (open?.toList ++ c :: l) := by
  have hrest : Settled (c.isText && endsInOpenReference c.value) l := by
    rw [hc]
    exact hl
  cases open? with
  | none =>
    refine ⟨fun hremovable => ?_, hrest⟩
    obtain ⟨⟨t, ht, _⟩, _⟩ := hcomment hremovable
    cases ht
  | some t =>
    refine ⟨fun hremovable => ?_, fun hremovable => ?_, hrest⟩
    · rw [isRemovable_of_isText (hopen t rfl)] at hremovable
      cases hremovable
    · obtain ⟨⟨t', ht', hends⟩, hnext⟩ := hcomment hremovable
      cases ht'
      exact ⟨by rw [hopen t rfl, hends]; rfl, hnext⟩

/-- What goes on with a reference is next once comments are removed. -/
theorem head?_join_kept {l : List Content}
    (hl : ∀ c ∈ l, c.isText = true → c.value.isEmpty = false) (h : nextContinues l = true) :
    ((join none (kept false l)).head?.any fun t => t.isText && continuesReference t.value) =
      true := by
  induction l with
  | nil => cases h
  | cons c l ih =>
    rw [nextContinues] at h
    cases hremovable : isRemovable c with
    | true =>
      rw [hremovable, if_pos rfl] at h
      simpa [kept, isText_of_isRemovable hremovable, hremovable] using
        ih (fun d hd => hl d (by simp [hd])) h
    | false =>
      rw [hremovable, if_neg Bool.false_ne_true, Bool.and_eq_true] at h
      obtain ⟨htext, hgoes⟩ := h
      have hfilled := hl c (by simp) htext
      obtain ⟨more, rest, heq⟩ := exists_join_some c (kept (endsInOpenReference c.value) l)
      have hjoin : join none (kept false (c :: l)) =
          { c with value := c.value ++ more } :: rest := by
        rw [kept, if_pos htext, join, htext, hfilled, ← heq]
        rfl
      rw [hjoin, List.head?_cons, Option.any_some, continuesReference_append hgoes, Bool.and_true]
      exact htext

/-- **Once comments are removed and texts joined, no comment goes.** -/
theorem settled_join_kept {open? : Option Content} {b : Bool} {l : List Content}
    (hopen : ∀ t ∈ open?, t.isText = true)
    (hb : b = true → ∃ t ∈ open?, endsInOpenReference t.value = true)
    (hl : ∀ c ∈ l, c.isText = true → c.value.isEmpty = false) (b' : Bool) :
    Settled b' (join open? (kept b l)) := by
  induction l generalizing open? b b' with
  | nil =>
    cases open? with
    | none => trivial
    | some t =>
      refine ⟨fun hremovable => ?_, trivial⟩
      rw [isRemovable_of_isText (hopen t rfl)] at hremovable
      cases hremovable
  | cons c l ih =>
    have hl' : ∀ d ∈ l, d.isText = true → d.value.isEmpty = false :=
      fun d hd => hl d (by simp [hd])
    have hbelow : Settled false (join none (kept false l)) := ih (by simp) (by simp) hl' false
    rw [kept]
    cases htext : c.isText with
    | true =>
      rw [if_pos rfl, join, htext, hl c (by simp) htext]
      refine ih (fun t ht => ?_) (fun hends => ⟨_, rfl, ?_⟩) hl' b'
      · cases ht
        exact isText_joinTo hopen htext
      · cases open? with
        | none => exact hends
        | some first => exact endsInOpenReference_append first.value hends
    | false =>
      rw [if_neg Bool.false_ne_true]
      cases hremovable : isRemovable c with
      | false =>
        rw [Bool.not_false, if_pos rfl, join, htext]
        exact settled_toList_append_cons hopen htext (by simp [hremovable]) hbelow
      | true =>
        rw [Bool.not_true, if_neg Bool.false_ne_true]
        -- A comment goes unless it keeps a reference open. One that stays does so
        -- in the joined siblings too: joining only adds to the texts on both sides.
        cases hkeep : b && nextContinues l with
        | false =>
          rw [if_neg Bool.false_ne_true]
          exact ih hopen hb hl' b'
        | true =>
          rw [Bool.and_eq_true] at hkeep
          rw [if_pos rfl, join, htext]
          exact settled_toList_append_cons hopen htext
            (fun _ => ⟨hb hkeep.1, head?_join_kept hl' hkeep.2⟩) hbelow

/-! ## Tidying texts -/

/-- Texts change or go, and all else stays alike. What goes is blank, no text becomes blank, and no
reference closes. -/
inductive Tidies : List Content → List Content → Prop where
  | nil : Tidies [] []
  | stay {l l' : List Content} {c c' : Content} : c.isText = false → c.Alike c' →
    c'.value = c.value → Tidies l l' → Tidies (c :: l) (c' :: l')
  | change {l l' : List Content} {c c' : Content} : c.isText = true → c'.isText = true →
    Text.isBlank c'.value = Text.isBlank c.value →
    (endsInOpenReference c.value = true → endsInOpenReference c'.value = true) →
    (continuesReference c.value = true → continuesReference c'.value = true) →
    Tidies l l' → Tidies (c :: l) (c' :: l')
  | drop {l l' : List Content} {c : Content} : c.isText = true → Text.isBlank c.value = true →
    Tidies l l' → Tidies (c :: l) l'

/-- A text that goes on with a reference is next after tidying, too. -/
theorem Tidies.head?_continues {l l' : List Content} (h : Tidies l l')
    (hl : (l.head?.any fun t => t.isText && continuesReference t.value) = true) :
    (l'.head?.any fun t => t.isText && continuesReference t.value) = true := by
  cases h with
  | nil => exact hl
  | stay htext _ _ _ => simp [htext] at hl
  | change htext htext' _ _ hgoes _ =>
    rw [List.head?_cons, Option.any_some, htext, Bool.true_and] at hl
    rw [List.head?_cons, Option.any_some, htext', hgoes hl]
    rfl
  | drop htext hblank _ =>
    rw [List.head?_cons, Option.any_some, htext, Bool.true_and] at hl
    rw [isBlank_of_continuesReference hl] at hblank
    cases hblank

/-- **Settled siblings stay so when texts are tidied.** -/
theorem Settled.tidies {l l' : List Content} {b b' : Bool} (h : Settled b l) (htidies : Tidies l l')
    (hb : b = true → b' = true) : Settled b' l' := by
  induction htidies generalizing b b' with
  | nil => trivial
  | @stay l l' c c' htext halike hvalue htidies ih =>
    obtain ⟨hcomment, hrest⟩ := h
    have hremovable : isRemovable c' = isRemovable c := by
      rw [isRemovable, halike.kind, hvalue, isRemovable]
    refine ⟨fun hc' => ?_, ih hrest fun hfalse => ?_⟩
    · obtain ⟨hopen, hnext⟩ := hcomment (hremovable ▸ hc')
      exact ⟨hb hopen, htidies.head?_continues hnext⟩
    · rw [htext] at hfalse
      cases hfalse
  | change htext htext' _ hends _ _ ih =>
    refine ⟨fun hc' => ?_, ih h.2 fun hopen => ?_⟩
    · rw [isRemovable_of_isText htext'] at hc'
      cases hc'
    · rw [htext, Bool.true_and] at hopen
      rw [htext', hends hopen]
      rfl
  | @drop l l' c htext hblank htidies ih =>
    refine ih h.2 fun hopen => ?_
    rw [htext, Bool.true_and] at hopen
    rw [isBlank_of_endsInOpenReference hopen] at hblank
    cases hblank

/-- Changes that keep kinds, blankness and references tidy siblings. -/
theorem tidies_map {g : Content → Content} {l : List Content}
    (h : ∀ c ∈ l, c.Alike (g c) ∧ (c.isText = false → (g c).value = c.value) ∧
      (c.isText = true → Text.isBlank (g c).value = Text.isBlank c.value ∧
        (endsInOpenReference c.value = true → endsInOpenReference (g c).value = true) ∧
        (continuesReference c.value = true → continuesReference (g c).value = true))) :
    Tidies l (l.map g) := by
  induction l with
  | nil => exact .nil
  | cons c l ih =>
    obtain ⟨halike, hvalue, hreference⟩ := h c (by simp)
    have hrest := ih fun d hd => h d (by simp [hd])
    cases htext : c.isText with
    | false => exact .stay htext halike (hvalue htext) hrest
    | true =>
      obtain ⟨hblank, hopens, hgoesOn⟩ := hreference htext
      exact .change htext (halike.isText_eq.trans htext) hblank hopens hgoesOn hrest

/-- Dropping blank texts tidies siblings. -/
theorem tidies_filter {keep : Content → Bool} {l : List Content}
    (h : ∀ c ∈ l, keep c = false → c.isBlankText = true) : Tidies l (l.filter keep) := by
  induction l with
  | nil => exact .nil
  | cons c l ih =>
    have hrest := ih fun d hd => h d (by simp [hd])
    rw [List.filter_cons]
    cases hkeep : keep c with
    | false =>
      have hblank := h c (by simp) hkeep
      rw [Content.isBlankText, Bool.and_eq_true] at hblank
      exact .drop hblank.1 hblank.2 hrest
    | true =>
      rw [if_pos rfl]
      cases htext : c.isText with
      | false => exact .stay htext (.refl c) rfl hrest
      | true => exact .change htext htext rfl id id hrest

end Comments

namespace Whitespace

open Siblings Text

/-! ## Collapsing and trimming -/

/-- A text collapsed; all else stays. -/
def collapsed (c : Content) : Content :=
  if c.isText then { c with value := collapse c.value } else c

/-- A collapsed node has its kind and name. -/
theorem alike_collapsed (c : Content) : c.Alike (collapsed c) := by
  rw [collapsed]
  split
  · exact ⟨rfl, rfl⟩
  · exact .refl c

/-- The texts among siblings trimmed, given the sibling before them. -/
def trimmedSiblings (parent : Content) (before : Option Content) : List Content → List Content
  | [] => []
  | c :: rest =>
    (if c.isText then { c with value := trimmed parent before rest.head? c.value } else c) ::
      trimmedSiblings parent (some c) rest

/-- Trimming siblings depends on the kind and the name of their parent. -/
theorem trimmedSiblings_congr {parent parent' : Content} (h : parent.Alike parent')
    (before : Option Content) (l : List Content) :
    trimmedSiblings parent' before l = trimmedSiblings parent before l := by
  have hedge : ∀ sibling, blockEdge sibling parent' = blockEdge sibling parent := by
    intro sibling
    cases sibling with
    | none => exact h.isBlock_eq
    | some c => rfl
  induction l generalizing before with
  | nil => rfl
  | cons c l ih =>
    rw [trimmedSiblings, trimmedSiblings, ih, trimmed_congr h (hedge before) (hedge l.head?)]

/-- Trimming leaves the texts among siblings as they are. -/
def Trimmed (parent : Content) (before : Option Content) : List Content → Prop
  | [] => True
  | c :: rest =>
    (c.isText = true → trimmed parent before rest.head? c.value = c.value) ∧
      Trimmed parent (some c) rest

/-- What is before siblings only counts if the first of them is a text. -/
theorem Trimmed.before_of_head? {parent : Content} {before : Option Content} {l : List Content}
    (h : Trimmed parent before l) (hl : ∀ c ∈ l.head?, c.isText = false)
    (before' : Option Content) : Trimmed parent before' l := by
  cases l with
  | nil => trivial
  | cons c l =>
    refine ⟨fun htext => ?_, h.2⟩
    rw [hl c rfl] at htext
    cases htext

/-- Trimming does not change whether siblings begin at a block edge. -/
theorem head?_trimmedSiblings (parent : Content) (before : Option Content) (l : List Content) :
    blockEdge (trimmedSiblings parent before l).head? parent = blockEdge l.head? parent := by
  cases l with
  | nil => rfl
  | cons c l =>
    rw [trimmedSiblings]
    split <;> rfl

/-- Trimming changes no text into anything else. -/
theorem map_isText_trimmedSiblings (parent : Content) (before : Option Content)
    (l : List Content) : (trimmedSiblings parent before l).map (·.isText) = l.map (·.isText) := by
  induction l generalizing before with
  | nil => rfl
  | cons c l ih =>
    rw [trimmedSiblings, List.map_cons, List.map_cons, ih]
    congr 1
    split <;> rfl

/-- **Trimmed siblings are trimmed.** -/
theorem trimmed_trimmedSiblings {parent : Content} {before before' : Option Content}
    (hbefore : blockEdge before' parent = blockEdge before parent) (l : List Content) :
    Trimmed parent before' (trimmedSiblings parent before l) := by
  induction l generalizing before before' with
  | nil => trivial
  | cons c l ih =>
    rw [trimmedSiblings]
    cases htext : c.isText with
    | false => exact ⟨by simp [htext], ih rfl⟩
    | true =>
      refine ⟨fun _ => ?_, ih rfl⟩
      rw [trimmed_congr (.refl parent) hbefore (head?_trimmedSiblings parent (some c) l)]
      exact trimmed_trimmed parent before l.head? c.value

/-- A text that trimming leaves nothing of is blank. -/
theorem isBlank_of_trimmed_eq_empty {parent : Content} {before after : Option Content}
    {value : String} (h : (trimmed parent before after value).isEmpty = true) :
    isBlank value = true := by
  rw [← isBlank_trimmed parent before after, String.isEmpty_iff.mp h]
  rfl

/-- Trimming tidies siblings, once the texts that it leaves nothing of go. -/
theorem tidies_trimmedSiblings (parent : Content) (before : Option Content) (l : List Content) :
    Comments.Tidies l ((trimmedSiblings parent before l).filter
      fun c => !(c.isText && c.value.isEmpty)) := by
  induction l generalizing before with
  | nil => exact .nil
  | cons c l ih =>
    rw [trimmedSiblings, List.filter_cons]
    cases htext : c.isText with
    | false =>
      rw [if_neg Bool.false_ne_true, htext]
      exact .stay htext (.refl c) rfl (ih (some c))
    | true =>
      have hkeeps := Comments.keepsReferences_trimmed parent before l.head?
      simp only [if_true]
      cases hempty : (trimmed parent before l.head? c.value).isEmpty with
      | true =>
        have hkind : c.kind = .text := by simpa [Content.isText] using htext
        rw [if_neg (by simp [Content.isText, hkind])]
        exact .drop htext (isBlank_of_trimmed_eq_empty hempty) (ih (some c))
      | false =>
        rw [if_pos (by simp)]
        exact .change htext htext (isBlank_trimmed ..) (hkeeps.opens _) (hkeeps.goesOn _)
          (ih (some c))

/-- **Trimmed texts stay so when other texts go**: no text is next to them. -/
theorem Trimmed.filter {parent : Content} {before : Option Content} {l : List Content}
    (h : Trimmed parent before l)
    (hl : l.IsChain fun a b => a.isText = false ∨ b.isText = false) {keep : Content → Bool}
    (hkeep : ∀ c, c.isText = false → keep c = true) : Trimmed parent before (l.filter keep) := by
  induction l generalizing before with
  | nil => trivial
  | cons c l ih =>
    obtain ⟨hnext, hrest⟩ := List.isChain_cons.mp hl
    obtain ⟨hc, htrimmed⟩ := h
    have hhead : c.isText = true → ∀ d ∈ l.head?, d.isText = false :=
      fun htext d hd => (hnext d hd).resolve_left (by simp [htext])
    rw [List.filter_cons]
    cases hkept : keep c with
    | false =>
      have htext : c.isText = true := by
        by_contra htext
        rw [hkeep c (by simpa using htext)] at hkept
        cases hkept
      exact ih (htrimmed.before_of_head? (hhead htext) before) hrest
    | true =>
      refine ⟨fun htext => ?_, ih htrimmed hrest⟩
      have hsame : (l.filter keep).head? = l.head? := by
        cases l with
        | nil => rfl
        | cons d l => rw [List.filter_cons, if_pos (hkeep d (hhead htext d rfl))]; rfl
      rw [hsame]
      exact hc htext

/-- Trimmed siblings stay so under changes that keep what trimming looks at. -/
theorem Trimmed.map {parent parent' : Content} {before before' : Option Content}
    {l : List Content} (h : Trimmed parent before l) (hparent : parent.Alike parent')
    (hbefore : blockEdge before' parent' = blockEdge before parent) {g : Content → Content}
    (halike : ∀ c ∈ l, c.Alike (g c)) (htexts : ∀ c ∈ l, c.isText = true → ∀ before after,
      trimmed parent before after c.value = c.value →
        trimmed parent before after (g c).value = (g c).value) :
    Trimmed parent' before' (l.map g) := by
  induction l generalizing before before' with
  | nil => trivial
  | cons c l ih =>
    have hhere := halike c List.mem_cons_self
    refine ⟨fun htext => ?_, ih h.2 hhere.isBlock_eq
      (fun d hd => halike d (List.mem_cons_of_mem _ hd))
      fun d hd => htexts d (List.mem_cons_of_mem _ hd)⟩
    rw [hhere.isText_eq] at htext
    have hafter : blockEdge (l.map g).head? parent' = blockEdge l.head? parent := by
      cases l with
      | nil => exact hparent.isBlock_eq
      | cons d l => exact (halike d (by simp)).isBlock_eq
    rw [trimmed_congr hparent hbefore hafter]
    exact htexts c List.mem_cons_self htext _ _ (h.1 htext)

end Whitespace

end HtmlMinify
