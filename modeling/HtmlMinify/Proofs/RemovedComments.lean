import HtmlMinify.Proofs.ParsedDocuments

/-!
# Which comments are removed

The pass that removes comments goes through the children of each node with one flag: whether the text
before ends in an open reference. A comment stays if it is conditional, or if the flag is up and the
next node that is no such comment is a text that goes on with the reference. `Comments.KeepsApart`
says the same of the siblings on both sides of a comment, without the flag. When comments are gone,
texts that they were between are joined; a text can then be made of many, and still no reference
closes where two of them meet.

## Main statements

* `Comments.notMem_removable_iff`: which comments stay.
* `Comments.not_continues_of_gone`: no reference closes where comments went.
* `Document.cleared_of_parse`: what removing comments and joining texts make of a page.
-/

namespace HtmlMinify

/-! ## The text of siblings -/

namespace Siblings

/-- The texts among siblings, put together. -/
def textOf : List Content → String
  | [] => ""
  | c :: l => if c.isText then c.value ++ textOf l else textOf l

theorem textOf_cons_of_text {c : Content} (h : c.isText = true) (l : List Content) :
    textOf (c :: l) = c.value ++ textOf l :=
  if_pos h

theorem textOf_cons_of_not_text {c : Content} (h : c.isText = false) (l : List Content) :
    textOf (c :: l) = textOf l :=
  if_neg (by rw [h]; exact Bool.false_ne_true)

/-- The text of two runs is that of the first, then that of the second. -/
theorem textOf_append (l l' : List Content) : textOf (l ++ l') = textOf l ++ textOf l' := by
  induction l with
  | nil => rw [List.nil_append, textOf, String.empty_append]
  | cons c l ih =>
    rw [List.cons_append, textOf, textOf, ih]
    split
    · rw [String.append_assoc]
    · rfl

theorem textOf_singleton_of_text {c : Content} (h : c.isText = true) : textOf [c] = c.value := by
  rw [textOf_cons_of_text h, textOf, String.append_empty]

/-- A stretch of joined siblings is joined. -/
theorem Joined.between {before run after : List Content} (h : Joined (before ++ run ++ after)) :
    Joined run :=
  ⟨fun c hc => h.filled c (by simp [hc]), List.IsChain.infix h.apart ⟨before, after, rfl⟩⟩

/-- What is no text is kept by joining. -/
theorem filter_join {open? : Option Content} (hopen : ∀ t ∈ open?, t.isText = true)
    (l : List Content) : (join open? l).filter (!·.isText) = l.filter (!·.isText) := by
  have hnone : ∀ {open? : Option Content}, (∀ t ∈ open?, t.isText = true) →
      open?.toList.filter (!·.isText) = [] := by
    intro open? hopen
    refine List.filter_eq_nil_iff.mpr fun t ht => ?_
    rw [hopen t (Option.mem_toList.mp ht)]
    exact Bool.false_ne_true
  induction l generalizing open? with
  | nil => exact hnone hopen
  | cons c l ih =>
    rw [join]
    cases hc : c.isText with
    | false =>
      rw [Bool.not_false, if_pos rfl, List.filter_append, hnone hopen, List.nil_append,
        List.filter_cons, List.filter_cons, ih (by simp)]
    | true =>
      rw [Bool.not_true, if_neg Bool.false_ne_true, List.filter_cons_of_neg (by simp [hc])]
      split
      · exact ih hopen
      · exact ih fun t ht => Option.some.inj ht ▸ isText_joinTo hopen hc

/-- Joining loses no text. -/
theorem textOf_join {open? : Option Content} (hopen : ∀ t ∈ open?, t.isText = true)
    (l : List Content) : textOf (join open? l) = textOf (open?.toList ++ l) := by
  induction l generalizing open? with
  | nil => rw [join, List.append_nil]
  | cons c l ih =>
    rw [join]
    cases hc : c.isText with
    | false =>
      rw [Bool.not_false, if_pos rfl, textOf_append, textOf_append, textOf_cons_of_not_text hc,
        textOf_cons_of_not_text hc, ih (by simp)]
      rfl
    | true =>
      rw [Bool.not_true, if_neg Bool.false_ne_true]
      split
      · next hempty =>
        rw [ih hopen, textOf_append, textOf_append, textOf_cons_of_text hc,
          String.isEmpty_iff.mp hempty, String.empty_append]
      · rw [ih fun t ht => Option.some.inj ht ▸ isText_joinTo hopen hc, Option.toList_some,
          List.singleton_append, textOf_cons_of_text (isText_joinTo hopen hc), textOf_append,
          textOf_cons_of_text hc]
        cases open? with
        | none => exact String.empty_append.symm
        | some first =>
          rw [Option.toList_some, textOf_singleton_of_text (hopen first rfl), joinTo,
            String.append_assoc]

/-- Siblings that are no texts can go without loss of text. -/
theorem textOf_filter {keep : NodeId × Content → Bool} {l : List (NodeId × Content)}
    (hkeep : ∀ x ∈ l, keep x = false → x.2.isText = false) :
    textOf ((l.filter keep).map (·.2)) = textOf (l.map (·.2)) := by
  induction l with
  | nil => rfl
  | cons x l ih =>
    have hrest := ih fun y hy => hkeep y (List.mem_cons_of_mem _ hy)
    by_cases hx : keep x = true
    · rw [List.filter_cons_of_pos hx, List.map_cons, List.map_cons, textOf, textOf, hrest]
    · have htext := hkeep x List.mem_cons_self (Bool.eq_false_iff.mpr hx)
      rw [List.filter_cons_of_neg hx, List.map_cons, textOf_cons_of_not_text htext, hrest]

/-- **A joined text is made of siblings that stand together**: texts, and others that went. `done` is
what the open text was made of so far. -/
theorem exists_run_of_mem_join {keep : NodeId × Content → Bool} {l done : List (NodeId × Content)}
    {open? : Option Content} (hkeep : ∀ x ∈ l, keep x = false → x.2.isText = false)
    (hdone : ∀ y ∈ done, y.2.isText = true ∨ keep y = false)
    (hvalue : textOf (done.map (·.2)) = (open?.map (·.value)).getD "") {c : Content}
    (hc : c ∈ join open? ((l.filter keep).map (·.2))) (htext : c.isText = true) :
    ∃ before run after, done ++ l = before ++ run ++ after ∧
      (∀ y ∈ run, y.2.isText = true ∨ keep y = false) ∧ c.value = textOf (run.map (·.2)) := by
  induction l generalizing done open? with
  | nil =>
    rw [List.filter_nil, List.map_nil, join, Option.mem_toList] at hc
    cases hc
    exact ⟨[], done, [], by simp, hdone, hvalue.symm⟩
  | cons x l ih =>
    have hrest : ∀ y ∈ l, keep y = false → y.2.isText = false :=
      fun y hy => hkeep y (List.mem_cons_of_mem _ hy)
    -- One more sibling for the open text, if it is a text or goes.
    have hmore : ∀ {open' : Option Content}, (x.2.isText = true ∨ keep x = false) →
        textOf ((done ++ [x]).map (·.2)) = (open'.map (·.value)).getD "" →
        c ∈ join open' ((l.filter keep).map (·.2)) → ∃ before run after,
          done ++ x :: l = before ++ run ++ after ∧
          (∀ y ∈ run, y.2.isText = true ∨ keep y = false) ∧ c.value = textOf (run.map (·.2)) := by
      intro open' hx hvalue' hc'
      have hdone' : ∀ y ∈ done ++ [x], y.2.isText = true ∨ keep y = false := by
        intro y hy
        rcases List.mem_append.mp hy with hy | hy
        · exact hdone y hy
        · rw [List.mem_singleton.mp hy]
          exact hx
      rw [List.append_cons]
      exact ih hrest hdone' hvalue' hc'
    have hgrown : textOf ((done ++ [x]).map (·.2)) = textOf (done.map (·.2)) ++ textOf [x.2] := by
      rw [List.map_append, textOf_append, List.map_singleton]
    by_cases hx : keep x = true
    · rw [List.filter_cons_of_pos hx, List.map_cons, join] at hc
      by_cases hxtext : x.2.isText = true
      · rw [hxtext, Bool.not_true, if_neg Bool.false_ne_true] at hc
        rw [textOf_singleton_of_text hxtext] at hgrown
        split at hc
        · next hempty =>
          refine hmore (.inl hxtext) ?_ hc
          rw [hgrown, String.isEmpty_iff.mp hempty, String.append_empty, hvalue]
        · refine hmore (.inl hxtext) ?_ hc
          rw [hgrown, hvalue]
          cases open? with
          | none => exact String.empty_append
          | some first => rfl
      · rw [Bool.eq_false_iff.mpr hxtext, Bool.not_false, if_pos rfl, List.mem_append,
          Option.mem_toList, List.mem_cons] at hc
        rcases hc with hc | rfl | hc
        · cases hc
          exact ⟨[], done, x :: l, rfl, hdone, hvalue.symm⟩
        · exact absurd htext hxtext
        · have hnone : ∀ y ∈ ([] : List (NodeId × Content)), y.2.isText = true ∨ keep y = false := by
            simp
          obtain ⟨before, run, after, hsplit, hrun⟩ := ih hrest hnone rfl hc
          rw [List.nil_append] at hsplit
          exact ⟨done ++ x :: before, run, after, by rw [hsplit]; simp, hrun⟩
    · have hgone := Bool.eq_false_iff.mpr hx
      rw [List.filter_cons_of_neg hx] at hc
      refine hmore (.inr hgone) ?_ hc
      rw [hgrown, textOf_cons_of_not_text (hkeep x List.mem_cons_self hgone), textOf,
        String.append_empty, hvalue]

end Siblings

/-- Pairs are known by their two sides. -/
theorem eq_of_map_fst_snd {α β : Type} {l l' : List (α × β)} (hfst : l.map (·.1) = l'.map (·.1))
    (hsnd : l.map (·.2) = l'.map (·.2)) : l = l' := by
  rw [← List.zip_unzip l, ← List.zip_unzip l', List.unzip_eq_map, List.unzip_eq_map]
  exact congrArg₂ List.zip hfst hsnd

/-- Where only texts go, what is no text stays. -/
theorem Thins.filter_eq {old new : List (NodeId × Content)} (h : Thins false old new)
    (hcontents : (new.map (·.2)).filter (!·.isText) = (old.map (·.2)).filter (!·.isText)) :
    new.filter (!·.2.isText) = old.filter (!·.2.isText) := by
  have hids : ((new.filter (!·.2.isText)).map (·.1)).Sublist
      ((old.filter (!·.2.isText)).map (·.1)) := by
    clear hcontents
    induction h with
    | nil => exact .slnil
    | @drop old new x _ _ ih => exact ih.trans ((List.sublist_cons_self x old).filter _ |>.map _)
    | keep id hedited _ ih =>
      rw [List.filter_cons, List.filter_cons, hedited.isText_eq]
      split
      · exact .cons_cons _ ih
      · exact ih
  rw [List.filter_map, List.filter_map] at hcontents
  have hlength := congrArg List.length hcontents
  rw [List.length_map, List.length_map] at hlength
  refine eq_of_map_fst_snd (hids.eq_of_length ?_) hcontents
  rw [List.length_map, List.length_map]
  exact hlength

namespace Comments

open Siblings

/-! ## Comments that stay -/

/-- A comment between `before` and `after` keeps apart a text that ends in an open reference and one
that goes on with it: the one stands right before it, and up to the other there are only comments
that could go. -/
def KeepsApart (before after : List Content) : Prop :=
  ∃ outer u run v rest, before = outer ++ [u] ∧ after = run ++ v :: rest ∧
    u.isText = true ∧ endsInOpenReference u.value = true ∧ (∀ c ∈ run, isRemovable c = true) ∧
    v.isText = true ∧ continuesReference v.value = true

/-- A comment keeps texts apart whatever else is around them. -/
theorem KeepsApart.append {before after : List Content} (h : KeepsApart before after)
    (left right : List Content) : KeepsApart (left ++ before) (after ++ right) := by
  obtain ⟨outer, u, run, v, rest, rfl, rfl, hboth⟩ := h
  exact ⟨left ++ outer, u, run, v, rest ++ right, by simp, by simp, hboth⟩

/-- The next text goes on with a reference if only comments that could go are in front of it. -/
theorem nextContinues_iff {l : List Content} :
    nextContinues l = true ↔ ∃ run v rest, l = run ++ v :: rest ∧
      (∀ c ∈ run, isRemovable c = true) ∧ v.isText = true ∧ continuesReference v.value = true := by
  constructor
  · intro h
    induction l with
    | nil => cases h
    | cons c l ih =>
      rw [nextContinues] at h
      split at h
      · next hc =>
        obtain ⟨run, v, rest, rfl, hrun, hv⟩ := ih h
        refine ⟨c :: run, v, rest, rfl, fun d hd => ?_, hv⟩
        rcases List.mem_cons.mp hd with rfl | hd
        · exact hc
        · exact hrun d hd
      · exact ⟨[], c, l, rfl, by simp, Bool.and_eq_true_iff.mp h⟩
  · rintro ⟨run, v, rest, rfl, hrun, hv, hgoes⟩
    induction run with
    | nil =>
      rw [List.nil_append, nextContinues, isRemovable_of_isText hv, if_neg Bool.false_ne_true, hv,
        hgoes]
      rfl
    | cons c run ih =>
      rw [List.cons_append, nextContinues, if_pos (hrun c List.mem_cons_self)]
      exact ih fun d hd => hrun d (List.mem_cons_of_mem _ hd)

/-- The flag behind `before`, in front of `rest`: whether the text before ends in an open
reference. -/
def openAfter (openReference : Bool) : List Content → List Content → Bool
  | [], _ => openReference
  | c :: before, rest =>
    if c.isText then openAfter (endsInOpenReference c.value) before rest
    else if !isRemovable c then openAfter false before rest
    else if openReference && nextContinues (before ++ rest) then openAfter false before rest
    else openAfter openReference before rest

/-- What goes is decided by the flag in front of it. -/
theorem mem_removable_append {b : Bool} {before after : List (NodeId × Node)} {id : NodeId}
    (hnew : id ∉ before.map (·.1)) :
    id ∈ removable b (before ++ after) ↔
      id ∈ removable
        (openAfter b (before.map (·.2.toContent)) (after.map (·.2.toContent))) after := by
  induction before generalizing b with
  | nil => exact Iff.rfl
  | cons child before ih =>
    obtain ⟨other, d⟩ := child
    rw [List.map_cons, List.mem_cons, not_or] at hnew
    have hrest := fun {b} => ih (b := b) hnew.2
    rw [List.cons_append, removable, List.map_cons, openAfter, List.map_append]
    split
    · exact hrest
    · split
      · exact hrest
      · split
        · exact hrest
        · rw [List.mem_cons, or_iff_right hnew.1]
          exact hrest

/-- The first of siblings goes if it may, unless the flag is up and the next text goes on with a
reference. -/
theorem mem_removable_cons {b : Bool} {id : NodeId} {node : Node} {after : List (NodeId × Node)}
    (hnew : id ∉ after.map (·.1)) (htext : node.isText = false) :
    id ∈ removable b ((id, node) :: after) ↔ isRemovable node.toContent = true ∧
      ¬ (b = true ∧ nextContinues (after.map (·.2.toContent)) = true) := by
  have hlater : ∀ b, id ∉ removable b after := fun b hmem =>
    hnew ((sublist_removable b after).subset hmem)
  rw [removable, htext, if_neg Bool.false_ne_true, ← Bool.and_eq_true]
  cases isRemovable node.toContent with
  | false => simpa using hlater false
  | true =>
    rw [Bool.not_true, if_neg Bool.false_ne_true]
    split
    · next hkeep => simp [hkeep, hlater]
    · next hkeep => simp [hkeep]

/-- Where the flag is up and a reference would go on, the text is right before: a comment between
would have stayed, and taken the flag down. -/
theorem exists_text_of_openAfter {b : Bool} {before rest : List Content}
    (hnext : nextContinues rest = true) (h : openAfter b before rest = true) :
    (before = [] ∧ b = true) ∨ ∃ outer u, before = outer ++ [u] ∧ u.isText = true ∧
      endsInOpenReference u.value = true := by
  induction before generalizing b with
  | nil => exact .inl ⟨rfl, h⟩
  | cons c before ih =>
    have hlater : (∃ outer u, before = outer ++ [u] ∧ u.isText = true ∧
        endsInOpenReference u.value = true) → ∃ outer u, c :: before = outer ++ [u] ∧
        u.isText = true ∧ endsInOpenReference u.value = true := by
      rintro ⟨outer, u, rfl, hu⟩
      exact ⟨c :: outer, u, rfl, hu⟩
    rw [openAfter] at h
    right
    split at h
    · next htext =>
      rcases ih h with ⟨rfl, hends⟩ | hfound
      · exact ⟨[], c, rfl, htext, hends⟩
      · exact hlater hfound
    · split at h
      · rcases ih h with ⟨_, hfalse⟩ | hfound
        · cases hfalse
        · exact hlater hfound
      · split at h
        · rcases ih h with ⟨_, hfalse⟩ | hfound
          · cases hfalse
          · exact hlater hfound
        · next hkeep =>
          rcases ih h with ⟨rfl, hb⟩ | hfound
          · rw [hb, List.nil_append, hnext] at hkeep
            exact absurd rfl hkeep
          · exact hlater hfound

/-- Behind a text the flag tells whether it ends in an open reference. -/
theorem openAfter_append_text {b : Bool} {outer rest : List Content} {u : Content}
    (hu : u.isText = true) :
    openAfter b (outer ++ [u]) rest = endsInOpenReference u.value := by
  induction outer generalizing b with
  | nil => rw [List.nil_append, openAfter, if_pos hu, openAfter]
  | cons c outer ih =>
    rw [List.cons_append, openAfter]
    split
    · exact ih
    · split
      · exact ih
      · split
        · exact ih
        · exact ih

/-- **The flag of the search says what it is meant to**: the comment keeps texts apart. -/
theorem openAfter_iff_keepsApart {c : Content} (hc : isRemovable c = true)
    {before after : List Content} :
    openAfter false before (c :: after) = true ∧ nextContinues after = true ↔
      KeepsApart before after := by
  have hnext : nextContinues (c :: after) = nextContinues after := by rw [nextContinues, if_pos hc]
  constructor
  · rintro ⟨hopen, hgoes⟩
    obtain ⟨run, v, rest, hafter, hrun, hv⟩ := nextContinues_iff.mp hgoes
    rcases exists_text_of_openAfter (hnext.trans hgoes) hopen with ⟨_, hfalse⟩ | hfound
    · cases hfalse
    · obtain ⟨outer, u, hbefore, hu, hends⟩ := hfound
      exact ⟨outer, u, run, v, rest, hbefore, hafter, hu, hends, hrun, hv⟩
  · rintro ⟨outer, u, run, v, rest, rfl, rfl, hu, hends, hrun, hv⟩
    exact ⟨(openAfter_append_text hu).trans hends,
      nextContinues_iff.mpr ⟨run, v, rest, rfl, hrun, hv⟩⟩

/-- **Which siblings stay**: all but the comments that are only comments, and of these the ones that
keep a reference apart. -/
theorem notMem_removable_iff {before after : List (NodeId × Node)} {id : NodeId} {node : Node}
    (hnodup : ((before ++ (id, node) :: after).map (·.1)).Nodup) (htext : node.isText = false) :
    id ∉ removable false (before ++ (id, node) :: after) ↔
      isRemovable node.toContent = false ∨
        KeepsApart (before.map (·.2.toContent)) (after.map (·.2.toContent)) := by
  rw [List.map_append, List.map_cons, List.nodup_append, List.nodup_cons] at hnodup
  obtain ⟨_, ⟨hafter, _⟩, hdisjoint⟩ := hnodup
  have hbefore : id ∉ before.map (·.1) :=
    fun hmem => hdisjoint id hmem id List.mem_cons_self rfl
  rw [mem_removable_append hbefore, mem_removable_cons hafter htext]
  cases hremovable : isRemovable node.toContent with
  | false => simp
  | true =>
    rw [List.map_cons, ← openAfter_iff_keepsApart hremovable]
    simp

/-! ## References -/

theorem exists_toList_cons {s : String} (hne : s.isEmpty = false) :
    ∃ c rest, s.toList = c :: rest := by
  refine List.exists_cons_of_ne_nil fun hnil => ?_
  rw [String.toList_eq_nil_iff.mp hnil] at hne
  cases hne

/-- An open reference at the end of two texts together begins in the second one, or goes through
it. -/
theorem endsInOpenReference_of_append {s t : String} (h : endsInOpenReference (s ++ t) = true) :
    endsInOpenReference t = true ∨
      (endsInOpenReference s = true ∧ ∀ c ∈ t.toList, inReference c = true) := by
  obtain ⟨before, name, hsplit, hname⟩ := endsInOpenReference_iff.mp h
  rw [String.toList_append, List.append_eq_append_iff] at hsplit
  rcases hsplit with ⟨more, hbefore, ht⟩ | ⟨more, hs, hmore⟩
  · exact .inl (endsInOpenReference_iff.mpr ⟨more, name, ht, hname⟩)
  · cases more with
    | nil =>
      refine .inl (endsInOpenReference_iff.mpr ⟨[], name, hmore.symm, hname⟩)
    | cons c more =>
      obtain ⟨rfl, hrest⟩ := List.cons.inj hmore
      refine .inr ⟨endsInOpenReference_iff.mpr ⟨before, more, hs, fun d hd => ?_⟩, fun d hd => ?_⟩
      · exact hname d (by rw [hrest]; exact List.mem_append_left _ hd)
      · exact hname d (by rw [hrest]; exact List.mem_append_right _ hd)

/-- Whether a text goes on with a reference shows at its start. -/
theorem continuesReference_of_append {s t : String} (hne : s.isEmpty = false)
    (h : continuesReference (s ++ t) = true) : continuesReference s = true := by
  obtain ⟨c, rest, hsplit, hc⟩ := continuesReference_iff.mp h
  obtain ⟨d, more, hs⟩ := exists_toList_cons hne
  rw [String.toList_append, hs, List.cons_append] at hsplit
  refine continuesReference_iff.mpr ⟨d, more, hs, ?_⟩
  rw [(List.cons.inj hsplit).1]
  exact hc

/-- A text of nothing but the characters of a name goes on with a reference. -/
theorem continuesReference_of_forall {s : String} (hne : s.isEmpty = false)
    (h : ∀ c ∈ s.toList, inReference c = true) : continuesReference s = true := by
  obtain ⟨c, rest, hs⟩ := exists_toList_cons hne
  refine continuesReference_iff.mpr ⟨c, rest, hs, ?_⟩
  rw [h c (by rw [hs]; exact List.mem_cons_self), Bool.true_or]

/-- Where the text of siblings goes on with a reference, their first text does. -/
theorem exists_text_of_continues {l : List Content}
    (hfilled : ∀ c ∈ l, c.isText = true → c.value.isEmpty = false)
    (h : continuesReference (textOf l) = true) :
    ∃ run v rest, l = run ++ v :: rest ∧ (∀ c ∈ run, c.isText = false) ∧ v.isText = true ∧
      continuesReference v.value = true := by
  induction l with
  | nil => cases h
  | cons c l ih =>
    cases hc : c.isText with
    | true =>
      rw [textOf_cons_of_text hc] at h
      exact ⟨[], c, l, rfl, by simp, hc,
        continuesReference_of_append (hfilled c List.mem_cons_self hc) h⟩
    | false =>
      rw [textOf_cons_of_not_text hc] at h
      obtain ⟨run, v, rest, rfl, hrun, hv⟩ :=
        ih (fun d hd => hfilled d (List.mem_cons_of_mem _ hd)) h
      refine ⟨c :: run, v, rest, rfl, fun d hd => ?_, hv⟩
      rcases List.mem_cons.mp hd with rfl | hd
      · exact hc
      · exact hrun d hd

/-- **No reference closes where comments went.** The siblings are texts and comments that keep
nothing apart; wherever they are cut in two, the text on the right does not go on with a reference
that the text on the left leaves open. -/
theorem not_continues_of_gone {run : List Content} (hjoined : Joined run)
    (hkind : ∀ c ∈ run, c.isText = true ∨ isRemovable c = true)
    (hgone : ∀ before c after, run = before ++ c :: after → isRemovable c = true →
      ¬ KeepsApart before after) {left right : List Content} (hsplit : run = left ++ right)
    (hopen : endsInOpenReference (textOf left) = true) :
    continuesReference (textOf right) = false := by
  -- The cut is moved to the left until the text before it ends in an open reference by itself.
  induction left using List.reverseRecOn generalizing right with
  | nil => cases hopen
  | append_singleton left u ih =>
    rw [List.append_assoc, List.singleton_append] at hsplit
    have hmem : u ∈ run := by
      rw [hsplit]
      exact List.mem_append_right _ List.mem_cons_self
    rw [textOf_append] at hopen
    cases hu : u.isText with
    | false =>
      rw [textOf_cons_of_not_text hu, textOf, String.append_empty] at hopen
      have hrest := ih hsplit hopen
      rwa [textOf_cons_of_not_text hu] at hrest
    | true =>
      have hfilled := hjoined.filled u hmem hu
      rw [textOf_singleton_of_text hu] at hopen
      rw [Bool.eq_false_iff]
      intro hgoes
      rcases endsInOpenReference_of_append hopen with hends | ⟨hleft, hname⟩
      · have hright : ∀ c ∈ right, c ∈ run := fun c hc => by
          rw [hsplit]
          exact List.mem_append_right _ (List.mem_cons_of_mem _ hc)
        obtain ⟨between, v, rest, rfl, hbetween, hv, hvgoes⟩ :=
          exists_text_of_continues (fun c hc => hjoined.filled c (hright c hc)) hgoes
        cases between with
        | nil =>
          -- two texts are never next to each other
          have hapart := hjoined.apart
          rw [hsplit, List.isChain_append] at hapart
          rcases (List.isChain_cons_cons.mp hapart.2.1).1 with hnot | hnot
          · rw [hu] at hnot
            cases hnot
          · rw [hv] at hnot
            cases hnot
        | cons c between =>
          have hremovable : ∀ d ∈ c :: between, isRemovable d = true := by
            intro d hd
            refine (hkind d (hright d (List.mem_append_left _ hd))).resolve_left ?_
            rw [hbetween d hd]
            exact Bool.false_ne_true
          refine hgone (left ++ [u]) c (between ++ v :: rest) ?_ (hremovable c List.mem_cons_self)
            ⟨left, u, between, v, rest, rfl, rfl, hu, hends,
              fun d hd => hremovable d (List.mem_cons_of_mem _ hd), hv, hvgoes⟩
          rw [hsplit, List.append_assoc]
          rfl
      · have hrest := ih hsplit hleft
        rw [textOf_cons_of_text hu,
          continuesReference_append (continuesReference_of_forall hfilled hname)] at hrest
        cases hrest

/-! ## Siblings without comments -/

/-- What removing comments and joining texts make of siblings. -/
structure Cleared (old new : List (NodeId × Content)) : Prop where
  /-- What is no text is as it was, in the same order. -/
  stays : (new.filter (!·.2.isText)).Sublist old
  /-- All of it is there but for comments that are only comments, and these if they keep a reference
  apart. -/
  stays_iff : ∀ before x after, old = before ++ x :: after → x.2.isText = false →
    (x ∈ new ↔ isRemovable x.2 = false ∨ KeepsApart (before.map (·.2)) (after.map (·.2)))
  /-- A text is made of texts between which only comments were, and these went. No reference closes
  where two of them meet. -/
  merges : ∀ x ∈ new, x.2.isText = true → ∃ before run after, old = before ++ run ++ after ∧
    (∀ y ∈ run, y.2.isText = true ∨ (isRemovable y.2 = true ∧ y ∉ new)) ∧
    x.2.value = textOf (run.map (·.2)) ∧
    ∀ left right, run = left ++ right → endsInOpenReference (textOf (left.map (·.2))) = true →
      continuesReference (textOf (right.map (·.2))) = false
  /-- No text is lost. -/
  text : textOf (new.map (·.2)) = textOf (old.map (·.2))

/-- The siblings that `keep` takes are the ones that stay. -/
def Decides (keep : NodeId × Content → Bool) (old : List (NodeId × Content)) : Prop :=
  ∀ before x after, old = before ++ x :: after →
    (keep x = true ↔ isRemovable x.2 = false ∨ KeepsApart (before.map (·.2)) (after.map (·.2)))

namespace Decides

variable {keep : NodeId × Content → Bool} {old new : List (NodeId × Content)}

/-- What goes is a comment that could go. -/
theorem isRemovable_of_gone (h : Decides keep old) {x : NodeId × Content} (hx : x ∈ old)
    (hgone : keep x = false) : isRemovable x.2 = true := by
  obtain ⟨before, after, hsplit⟩ := List.append_of_mem hx
  rw [← Bool.not_eq_false]
  intro hnot
  rw [(h before x after hsplit).mpr (.inl hnot)] at hgone
  cases hgone

/-- So no text goes. -/
theorem isText_of_gone (h : Decides keep old) {x : NodeId × Content} (hx : x ∈ old)
    (hgone : keep x = false) : x.2.isText = false :=
  isText_of_isRemovable (h.isRemovable_of_gone hx hgone)

/-- Among siblings that stand together, texts and comments that go, no reference closes. -/
theorem not_continues (h : Decides keep old) (hjoined : Joined (old.map (·.2)))
    {before run after : List (NodeId × Content)} (hsplit : old = before ++ run ++ after)
    (hrun : ∀ y ∈ run, y.2.isText = true ∨ keep y = false) {left right : List (NodeId × Content)}
    (hcut : run = left ++ right) (hopen : endsInOpenReference (textOf (left.map (·.2))) = true) :
    continuesReference (textOf (right.map (·.2))) = false := by
  have hold : ∀ y ∈ run, y ∈ old := fun y hy => by simp [hsplit, hy]
  rw [hsplit, List.map_append, List.map_append] at hjoined
  refine not_continues_of_gone hjoined.between (fun c hc => ?_)
    (fun outer c rest hat hremovable hapart => ?_) (by rw [hcut, List.map_append]) hopen
  · obtain ⟨y, hy, rfl⟩ := List.mem_map.mp hc
    exact (hrun y hy).imp_right (h.isRemovable_of_gone (hold y hy))
  · -- The comment goes, so among all siblings it keeps nothing apart.
    obtain ⟨head, tail, rfl, rfl, htail⟩ := List.map_eq_append_iff.mp hat
    obtain ⟨y, tail, rfl, rfl, rfl⟩ := List.map_eq_cons_iff.mp htail
    have hgone : keep y = false := by
      refine (hrun y (by simp)).resolve_left ?_
      rw [isText_of_isRemovable hremovable]
      exact Bool.false_ne_true
    have hstays : keep y = true := by
      refine (h (before ++ head) y (tail ++ after) (by simp [hsplit])).mpr (.inr ?_)
      rw [List.map_append, List.map_append]
      exact hapart.append _ _
    rw [hstays] at hgone
    cases hgone

/-- **What is left when the decided comments go and texts are joined.** -/
theorem cleared (h : Decides keep old) (hjoined : Joined (old.map (·.2)))
    (hthins : Thins false (old.filter keep) new)
    (hnew : new.map (·.2) = join none ((old.filter keep).map (·.2))) : Cleared old new := by
  have hfilter : new.filter (!·.2.isText) = (old.filter keep).filter (!·.2.isText) := by
    refine hthins.filter_eq ?_
    rw [hnew, filter_join (by simp)]
  have hmem : ∀ x ∈ old, x.2.isText = false → (x ∈ new ↔ keep x = true) := by
    intro x hx htext
    have hiff : x ∈ new.filter (!·.2.isText) ↔ x ∈ (old.filter keep).filter (!·.2.isText) := by
      rw [hfilter]
    rw [List.mem_filter, List.mem_filter, htext, List.mem_filter] at hiff
    simpa [hx] using hiff
  have hnone : ∀ y ∈ ([] : List (NodeId × Content)), y.2.isText = true ∨ keep y = false := by simp
  constructor
  case stays =>
    rw [hfilter]
    exact List.filter_sublist.trans List.filter_sublist
  case stays_iff =>
    intro before x after hsplit htext
    rw [hmem x (by simp [hsplit]) htext]
    exact h before x after hsplit
  case merges =>
    intro x hx htext
    have hjoin : x.2 ∈ join none ((old.filter keep).map (·.2)) := by
      rw [← hnew]
      exact List.mem_map_of_mem hx
    obtain ⟨before, run, after, hsplit, hrun, hvalue⟩ :=
      exists_run_of_mem_join (fun y => h.isText_of_gone) hnone rfl hjoin htext
    rw [List.nil_append] at hsplit
    refine ⟨before, run, after, hsplit, fun y hy => ?_, hvalue,
      fun left right => h.not_continues hjoined hsplit hrun⟩
    have hold : y ∈ old := by simp [hsplit, hy]
    refine (hrun y hy).imp_right fun hgone => ⟨h.isRemovable_of_gone hold hgone, ?_⟩
    rw [hmem y hold (h.isText_of_gone hold hgone), hgone]
    exact Bool.false_ne_true
  case text =>
    rw [hnew, textOf_join (by simp)]
    exact textOf_filter fun y => h.isText_of_gone

end Decides

end Comments

namespace Document

open Siblings Comments

variable {doc : Document} {root : NodeId} {f : NumberedForest}

/-- Among the children of a family, the ones that are not listed to go are the ones that stay. -/
theorem Stands.decides (h : doc.Stands root f) {fam : Family} (hfam : fam ∈ familiesOf root f) :
    Decides (fun child => !(removable false (doc.childNodes fam.id)).contains child.1)
      fam.children := by
  intro before x after hsplit
  rw [Bool.not_eq_true', ← Bool.not_eq_true, List.contains_iff_mem]
  cases htext : x.2.isText with
  | true =>
    have hstays := isRemovable_of_isText htext
    refine iff_of_true (fun hlisted => ?_) (.inl hstays)
    rw [h.isRemovable_of_mem_removable hfam (by simp [hsplit]) hlisted] at hstays
    cases hstays
  | false =>
    have hnodup := h.nodup_members_of_mem hfam
    rw [← (map_childNodes (h.keeps hfam)).1] at hnodup
    have hnodes := (children_eq_ok (h.keeps hfam)).2
    rw [hsplit] at hnodes
    obtain ⟨left, right, hleft, rfl, hright⟩ := List.map_eq_append_iff.mp hnodes
    obtain ⟨⟨id, node⟩, rest, rfl, rfl, rfl⟩ := List.map_eq_cons_iff.mp hright
    rw [hleft] at hnodup ⊢
    rw [notMem_removable_iff hnodup htext, List.map_map, List.map_map]
    rfl

/-- **Removing comments from a page that was read** clears the children of each node. -/
theorem cleared_of_parse {maxDepth : Nat} {page : String}
    (h : Document.parse maxDepth page = .ok doc) :
    ∃ removed between merged doc', Comments.remove.apply doc = (.ok removed, between) ∧
      Edit.normalize.apply between = (.ok merged, doc') ∧
      ∀ {p : NodeId} {parent : Node} {children : List (NodeId × Node)},
        doc.node p = .ok parent → doc.children p = .ok children → children ≠ [] →
        ∃ children', doc'.children p = .ok children' ∧
          Cleared (children.map fun child => (child.1, child.2.toContent))
            (children'.map fun child => (child.1, child.2.toContent)) := by
  obtain ⟨f, hstands, htidy, hfamily⟩ := exists_family_of_parse h
  obtain ⟨removed, between, g, hrun, hstands₁, hturns⟩ := hstands.exists_apply_removeListed
  obtain ⟨merged, doc', f', hrun', hstands', hturns'⟩ := hstands₁.exists_apply_normalize
  refine ⟨removed, between, merged, doc', hrun, hrun', ?_⟩
  intro p parent children hparent hchildren hne
  obtain ⟨fam, hfam, hid, -, hstays, hfamChildren⟩ := hfamily hparent hchildren hne
  obtain ⟨fam₁, hfam₁, hid₁, hedited, -, hleft⟩ :=
    hturns.exists_family_of_mem htidy.sound hfam hstays
  obtain ⟨fam', hfam', hid', -, hthins, hleaves⟩ := hturns'.exists_family_of_mem
    (htidy.sound.turns hturns) hfam₁ (hedited.mayGo_eq.trans hstays)
  obtain ⟨children', hchildren', hmap⟩ := children_of_keeps (hstands'.keeps hfam')
  rw [hid', hid₁, hid] at hchildren'
  refine ⟨children', hchildren', ?_⟩
  rw [hmap, ← hfamChildren]
  have hjoin : fam'.children.map (·.2) = join none (fam₁.children.map (·.2)) := hleaves
  rw [hleft] at hthins hjoin
  exact (hstands.decides hfam).cleared (htidy fam hfam).joined hthins hjoin

/-- Two comments in a reference, one between other texts, and a conditional one. -/
def splitReference : Forest Content :=
  .node (.element "p" .empty false)
    (.node (.leaf .text "&am") .nil <| .node (.leaf .comment "x") .nil <|
      .node (.leaf .comment "y") .nil <| .node (.leaf .text "p;") .nil <|
      .node (.leaf .comment "z") .nil <| .node (.leaf .text "b") .nil <|
      .node (.leaf .comment "[if IE]") .nil .nil)
    .nil

/-- The sample is read from its markup. -/
theorem parse_splitReference :
    Document.parse 1 "<p>&am<!--x--><!--y-->p;<!--z-->b<!--[if IE]-->" =
      .ok (.ofForest splitReference) :=
  parse_eq_ofForest
    (Builder.run_log_of_step "&am<!--x--><!--y-->p;<!--z-->b<!--[if IE]-->".toList
        (Builder.next?_bareTag "p" (by decide) _) rfl <|
      Builder.run_log_of_step "<!--x--><!--y-->p;<!--z-->b<!--[if IE]-->".toList rfl rfl <|
      Builder.run_log_of_step "<!--y-->p;<!--z-->b<!--[if IE]-->".toList rfl rfl <|
      Builder.run_log_of_step "p;<!--z-->b<!--[if IE]-->".toList rfl rfl <|
      Builder.run_log_of_step "<!--z-->b<!--[if IE]-->".toList rfl rfl <|
      Builder.run_log_of_step "b<!--[if IE]-->".toList rfl rfl <|
      Builder.run_log_of_step "<!--[if IE]-->".toList rfl rfl <|
      Builder.run_log_of_step [] rfl rfl Builder.run_log_nil).1
    rfl

/-- Two of the four comments go: not the first, which keeps a reference apart, and not the
condition. -/
theorem cleared_of_parse_splitReference :
    Document.parse 1 "<p>&am<!--x--><!--y-->p;<!--z-->b<!--[if IE]-->" =
        .ok (.ofForest splitReference) ∧
      ∃ removed between merged doc' children',
        Comments.remove.apply (ofForest splitReference) = (.ok removed, between) ∧
        Edit.normalize.apply between = (.ok merged, doc') ∧
        doc'.children 1 = .ok children' ∧
        (3, .leaf .comment "x") ∈ children'.map (fun child => (child.1, child.2.toContent)) ∧
        (4, .leaf .comment "y") ∉ children'.map (fun child => (child.1, child.2.toContent)) ∧
        (8, .leaf .comment "[if IE]") ∈
          children'.map (fun child => (child.1, child.2.toContent)) := by
  obtain ⟨removed, between, merged, doc', hrun, hrun', hnodes⟩ :=
    cleared_of_parse parse_splitReference
  have hparent : (ofForest splitReference).node 1 =
      .ok ⟨.element "p" .empty false, some 0, [2, 3, 4, 5, 6, 7, 8]⟩ := rfl
  have hchildren : (ofForest splitReference).children 1 =
      .ok [(2, ⟨.leaf .text "&am", some 1, []⟩), (3, ⟨.leaf .comment "x", some 1, []⟩),
        (4, ⟨.leaf .comment "y", some 1, []⟩), (5, ⟨.leaf .text "p;", some 1, []⟩),
        (6, ⟨.leaf .comment "z", some 1, []⟩), (7, ⟨.leaf .text "b", some 1, []⟩),
        (8, ⟨.leaf .comment "[if IE]", some 1, []⟩)] := rfl
  obtain ⟨children', hchildren', hcleared⟩ := hnodes hparent hchildren (by simp)
  have hapart : KeepsApart [.leaf .text "&am"] [.leaf .comment "y", .leaf .text "p;",
      .leaf .comment "z", .leaf .text "b", .leaf .comment "[if IE]"] :=
    ⟨[], _, [.leaf .comment "y"], _, _, rfl, rfl, rfl, by decide, by decide, rfl, by decide⟩
  have hnot : ∀ after, ¬ KeepsApart [.leaf .text "&am", .leaf .comment "x"] after := by
    rintro after ⟨outer, u, run, v, rest, hbefore, -, htext, -⟩
    have hlast := congrArg List.getLast? hbefore
    rw [List.getLast?_concat] at hlast
    cases hlast
    cases htext
  refine ⟨parse_splitReference, removed, between, merged, doc', children', hrun, hrun', hchildren',
    ?_, ?_, ?_⟩
  · exact (hcleared.stays_iff [_] _ [_, _, _, _, _] rfl rfl).mpr (.inr hapart)
  · rw [hcleared.stays_iff [_, _] _ [_, _, _, _] rfl rfl]
    rintro (hconditional | hkeeps)
    · exact absurd hconditional (by decide)
    · exact hnot _ hkeeps
  · exact (hcleared.stays_iff [_, _, _, _, _, _] _ [] rfl rfl).mpr (.inl (by decide))

end Document

end HtmlMinify
