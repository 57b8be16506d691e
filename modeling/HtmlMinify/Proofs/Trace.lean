import HtmlMinify.Proofs.Built

/-!
# The trace of a page

The trace of a forest lists its nodes in document order, each with its depth, and a text character by
character. A token only ever adds to the end of what was built, so the trace of a builder only grows:
what is there after a few tokens is there at the end. This is how a page that is known tells what its
tokens did.

## Main statements

* `Builder.trace_insert`, `Builder.trace_opened`, `Builder.trace_close`: what is added, and where.
* `Builder.Reaches.extends`: reading extends the trace, first at the depth that is open or outside it.
* `Builder.trace_forest`: the trace at the end is that of the page.
-/

namespace HtmlMinify

open Text

/-! ## Forests -/

/-- What a node adds to a trace by itself: a text every character, any other node itself. -/
def Content.marks (depth : Nat) (c : Content) : List (Nat × Content) :=
  if c.isText then c.value.toList.map fun char => (depth, { c with value := .singleton char })
  else [(depth, c)]

namespace Content

/-- A node that is no text leaves one mark. -/
theorem marks_of_not_isText {c : Content} (h : c.isText = false) (depth : Nat) :
    c.marks depth = [(depth, c)] := by
  rw [marks, if_neg (by simp [h])]

/-- All marks of a node are at its depth. -/
theorem depth_of_mem_marks {depth : Nat} {c : Content} {e : Nat × Content}
    (h : e ∈ c.marks depth) : e.1 = depth := by
  unfold marks at h
  split at h
  · obtain ⟨char, _, rfl⟩ := List.mem_map.mp h
    rfl
  · rw [List.mem_singleton.mp h]

/-- A text leaves marks of texts, and nothing else does. -/
theorem isText_of_mem_marks {depth : Nat} {c : Content} {e : Nat × Content}
    (h : e ∈ c.marks depth) : e.2.isText = c.isText := by
  unfold marks at h
  split at h
  · obtain ⟨char, _, rfl⟩ := List.mem_map.mp h
    rfl
  · rw [List.mem_singleton.mp h]

/-- A node that can be written leaves a mark. -/
theorem marks_ne_nil {c : Content} (h : c.Spelled) (depth : Nat) : c.marks depth ≠ [] := by
  unfold marks
  split
  · next htext =>
    have hkind : c.kind = .text := by simpa [isText] using htext
    rw [Content.Spelled, hkind] at h
    simpa using mt String.toList_eq_nil_iff.mp h
  · simp

/-- A text grows at its end. -/
theorem marks_append {c : Content} (h : c.isText = true) (depth : Nat) (value : String) :
    Content.marks depth { c with value := c.value ++ value } =
      c.marks depth ++ Content.marks depth { c with value } := by
  have hgrown : Content.isText { c with value := c.value ++ value } = true := h
  have hmore : Content.isText { c with value } = true := h
  rw [marks, if_pos hgrown, marks, if_pos h, marks, if_pos hmore, String.toList_append,
    List.map_append]

/-- A text is told by its marks. -/
theorem eq_of_marks_eq {c c' : Content} {depth : Nat} (hc : c.isText = true)
    (hc' : c'.isText = true) (hspelled : c.Spelled) (h : c.marks depth = c'.marks depth) :
    c = c' := by
  have hvalue (c : Content) (hc : c.isText = true) :
      (c.marks depth).map (·.2.value) = c.value.toList.map String.singleton := by
    rw [marks, if_pos hc, List.map_map]
    rfl
  have hsame : c.value = c'.value := by
    have hmap := congrArg (List.map (·.2.value)) h
    rw [hvalue c hc, hvalue c' hc'] at hmap
    exact String.toList_injective
      (List.map_injective_iff.mpr (fun _ _ heq => by simpa using congrArg String.toList heq) hmap)
  obtain ⟨e, hmem⟩ := List.exists_mem_of_ne_nil _ (marks_ne_nil hspelled depth)
  have hmem' : e ∈ c'.marks depth := h ▸ hmem
  rw [marks, if_pos hc] at hmem
  rw [marks, if_pos hc'] at hmem'
  obtain ⟨char, _, rfl⟩ := List.mem_map.mp hmem
  obtain ⟨char', _, heq⟩ := List.mem_map.mp hmem'
  cases c
  cases c'
  simp_all

end Content

namespace Forest

/-- The nodes of a forest that stands at a depth, in document order. -/
def trace : Nat → Forest Content → List (Nat × Content)
  | _, nil => []
  | depth, node c children siblings =>
    c.marks depth ++ (children.trace (depth + 1) ++ siblings.trace depth)

@[simp]
theorem trace_nil (depth : Nat) : trace depth nil = [] := rfl

/-- The trace of two forests is that of the first, then that of the second. -/
theorem trace_append (f g : Forest Content) (depth : Nat) :
    (f ++ g).trace depth = f.trace depth ++ g.trace depth := by
  induction f with
  | nil => rfl
  | node c children siblings _ ih =>
    rw [node_append, trace, trace, ih, List.append_assoc, List.append_assoc]

/-- The trace of trees given last first grows at its end. -/
theorem trace_prependReversed_cons (c : Content) (below : Forest Content) (earlier : List Tree)
    (depth : Nat) :
    (prependReversed ((c, below) :: earlier) nil).trace depth =
      (prependReversed earlier nil).trace depth ++
        (c.marks depth ++ below.trace (depth + 1)) := by
  rw [prependReversed, ← nil_append (node c below nil), prependReversed_append, trace_append,
    trace, trace_nil, List.append_nil]

/-- Nothing in a forest is above its roots. -/
theorem le_depth_of_mem_trace {f : Forest Content} {depth : Nat} {e : Nat × Content}
    (h : e ∈ f.trace depth) : depth ≤ e.1 := by
  induction f generalizing depth with
  | nil => cases h
  | node c children siblings ihc ihs =>
    rw [trace, List.mem_append, List.mem_append] at h
    rcases h with h | h | h
    · exact Nat.le_of_eq (Content.depth_of_mem_marks h).symm
    · exact Nat.le_of_succ_le (ihc h)
    · exact ihs h

/-- The trace of a forest begins with its first node. -/
theorem head?_trace {f : Forest Content} {outer : List String} (h : f.Built outer) {depth : Nat}
    {e : Nat × Content} (he : (f.trace depth).head? = some e) :
    e.1 = depth ∧ f.head?.any (·.isText) = e.2.isText := by
  cases f with
  | nil => cases he
  | node c children siblings =>
    obtain ⟨first, more, hmarks⟩ :=
      List.exists_cons_of_ne_nil (Content.marks_ne_nil h.1.spelled depth)
    rw [trace, hmarks, List.cons_append, List.head?_cons] at he
    have hmem : e ∈ c.marks depth := by
      rw [hmarks, Option.some.inj he]
      exact List.mem_cons_self
    exact ⟨Content.depth_of_mem_marks hmem, (Content.isText_of_mem_marks hmem).symm⟩

/-- A forest whose trace is empty is empty. -/
theorem eq_nil_of_trace {f : Forest Content} {outer : List String} (h : f.Built outer)
    {depth : Nat} (htrace : f.trace depth = []) : f = nil := by
  cases f with
  | nil => rfl
  | node c children siblings =>
    rw [trace, List.append_eq_nil_iff] at htrace
    exact absurd htrace.1 (Content.marks_ne_nil h.1.spelled depth)

end Forest

/-- A trace can be cut in only one way into what is inside a depth and what begins outside it. -/
theorem trace_append_inj (depth : Nat) {inside outside inside' outside' : List (Nat × Content)}
    (hinside : ∀ e ∈ inside, depth < e.1) (hinside' : ∀ e ∈ inside', depth < e.1)
    (houtside : ∀ e ∈ outside.head?, e.1 ≤ depth) (houtside' : ∀ e ∈ outside'.head?, e.1 ≤ depth)
    (h : inside ++ outside = inside' ++ outside') : inside = inside' ∧ outside = outside' := by
  have hcut {inner after : List (Nat × Content)} (hinner : ∀ e ∈ inner, depth < e.1)
      (hafter : ∀ e ∈ after.head?, e.1 ≤ depth) :
      (inner ++ after).takeWhile (decide <| depth < ·.1) = inner :=
    takeWhile_append_stop (fun e he => by simpa using hinner e he)
      (fun e he => by simpa using hafter e he)
  have hsame : inside = inside' := by
    rw [← hcut hinside houtside, h, hcut hinside' houtside']
  subst hsame
  exact ⟨rfl, List.append_cancel_left h⟩

/-! ## Builders -/

namespace Builder

/-- The trace of the trees at the top and of the open elements with their children so far. -/
def traceOf (top : List Tree) : List Frame → List (Nat × Content)
  | [] => (Forest.prependReversed top .nil).trace 0
  | frame :: outer =>
    traceOf top outer ++ (frame.content.marks outer.length ++
      (Forest.prependReversed frame.done .nil).trace (outer.length + 1))

/-- The trace of what was built so far. -/
def trace (b : Builder) : List (Nat × Content) :=
  traceOf b.done b.frames

theorem trace_bare (b : Builder) : b.bare.trace = b.trace := rfl

/-- Noting a token leaves no trace. -/
@[simp]
theorem trace_observe (token : Token) (b : Builder) : (b.observe token).trace = b.trace := by
  rw [← trace_bare, bare_observe, trace_bare]

/-- What is added to the innermost children is added to the trace. -/
theorem trace_onChildren {change : List Tree → List Tree} {b : Builder} {more : List (Nat × Content)}
    (h : (Forest.prependReversed (change b.children) .nil).trace b.openTags.length =
      (Forest.prependReversed b.children .nil).trace b.openTags.length ++ more) :
    (b.onChildren change).trace = b.trace ++ more := by
  rw [← length_frames] at h
  obtain ⟨frames, done, quirks, decided⟩ := b
  cases frames with
  | nil => exact h
  | cons frame outer =>
    change traceOf done outer ++ (_ ++ (Forest.prependReversed (change frame.done) .nil).trace _) =
      (traceOf done outer ++ (_ ++ (Forest.prependReversed frame.done .nil).trace _)) ++ more
    rw [List.append_assoc, List.append_assoc]
    exact congrArg (fun inner => traceOf done outer ++ (frame.content.marks outer.length ++ inner)) h

/-- A tree that is inserted leaves its marks at the end. -/
theorem trace_insert (c : Content) (below : Forest Content) (b : Builder) :
    (b.insert (c, below)).trace =
      b.trace ++ (c.marks b.openTags.length ++ below.trace (b.openTags.length + 1)) :=
  trace_onChildren (Forest.trace_prependReversed_cons c below b.children _)

/-- An element that is opened leaves its mark at the end. -/
theorem trace_opened (c : Content) (b : Builder) :
    (b.opened c).trace = b.trace ++ c.marks b.openTags.length := by
  rw [← length_frames]
  change traceOf b.done b.frames ++ (c.marks b.frames.length ++ []) = _
  rw [List.append_nil]
  rfl

/-- Ending elements changes nothing. -/
@[simp]
theorem trace_close (n : Nat) (b : Builder) : (b.close n).trace = b.trace := by
  induction n generalizing b with
  | zero => rfl
  | succ n ih =>
    rw [close]
    cases hframes : b.frames with
    | nil => rfl
    | cons frame outer =>
      simp only
      rw [ih, trace_insert, ← length_frames, trace, trace, hframes]
      rfl

/-- **The trace at the end is that of the page.** -/
theorem trace_forest (b : Builder) : b.forest.trace 0 = b.trace := by
  rw [← trace_close b.frames.length b, trace, frames_close_length]
  rfl

/-- A text adds its characters, as part of a text before it or of its own. -/
theorem trace_joinText {outer : List String} {trees : List Tree} (h : TreesBuilt outer trees)
    {value : String} (hvalue : value ≠ "") (depth : Nat) :
    ∃ c : Content, c.isText = true ∧ c.Spelled ∧
      (Forest.prependReversed (joinText value trees) .nil).trace depth =
        (Forest.prependReversed trees .nil).trace depth ++ c.marks depth := by
  have hleaf (trees : List Tree) :
      (Forest.prependReversed ((.leaf .text value, .nil) :: trees) .nil).trace depth =
        (Forest.prependReversed trees .nil).trace depth ++ Content.marks depth (.leaf .text value) := by
    rw [Forest.trace_prependReversed_cons, Forest.trace_nil, List.append_nil]
  cases trees with
  | nil => exact ⟨.leaf .text value, rfl, hvalue, hleaf []⟩
  | cons tree earlier =>
    obtain ⟨last, below⟩ := tree
    by_cases htext : last.isText = true
    · have hkind : last.kind = .text := by simpa [Content.isText] using htext
      -- The text before has no children, so its characters are the last of the trace.
      obtain rfl : below = .nil := h.1.childless (.inl (by simp [Content.isElement, hkind]))
      refine ⟨{ last with value }, htext, by rw [Content.Spelled, hkind]; exact hvalue, ?_⟩
      rw [joinText, if_pos htext, Forest.trace_prependReversed_cons,
        Forest.trace_prependReversed_cons, Content.marks_append htext, Forest.trace_nil,
        List.append_nil, List.append_nil, List.append_assoc]
    · rw [joinText, if_neg htext]
      exact ⟨.leaf .text value, rfl, hvalue, hleaf _⟩

/-- The children of the innermost open element are built. -/
theorem Built.children {b : Builder} (h : b.Built) : TreesBuilt b.openTags b.children := by
  obtain ⟨frames, done, quirks, decided⟩ := b
  cases frames with
  | nil => exact h.done
  | cons frame outer => exact h.frames.2.1

/-- A text that is added leaves its marks at the end, whether it joins another or not. -/
theorem trace_addText {b : Builder} (h : b.Built) {value : String} (hvalue : value ≠ "") :
    ∃ c : Content, c.isText = true ∧ c.Spelled ∧
      (b.addText value).trace = b.trace ++ c.marks b.openTags.length := by
  obtain ⟨c, htext, hspelled, htrace⟩ :=
    trace_joinText (h.observe (.text value)).children hvalue (b.observe (.text value)).openTags.length
  refine ⟨c, htext, hspelled, ?_⟩
  rw [addText, trace_onChildren htrace, trace_observe, openTags_observe]

/-! ## Runs -/

/-- The builder `b'` has come from `b` by reading on: what it adds begins where `b` is open, or
outside. -/
def Extends (b b' : Builder) : Prop :=
  ∃ more, b'.trace = b.trace ++ more ∧ (∀ e ∈ more.head?, e.1 ≤ b.openTags.length) ∧
    (more = [] → b'.openTags.length ≤ b.openTags.length)

theorem Extends.refl (b : Builder) : b.Extends b :=
  ⟨[], (List.append_nil _).symm, (fun _ h => by cases h), fun _ => Nat.le_refl _⟩

theorem Extends.trans {b b' b'' : Builder} (h : b.Extends b') (h' : b'.Extends b'') :
    b.Extends b'' := by
  obtain ⟨more, htrace, hhead, hopen⟩ := h
  obtain ⟨more', htrace', hhead', hopen'⟩ := h'
  refine ⟨more ++ more', by rw [htrace', htrace, List.append_assoc], ?_, fun hnil => ?_⟩
  · cases more with
    | nil => exact fun e he => Nat.le_trans (hhead' e he) (hopen rfl)
    | cons first more => exact hhead
  · obtain ⟨hmore, hmore'⟩ := List.append_eq_nil_iff.mp hnil
    exact Nat.le_trans (hopen' hmore') (hopen hmore)

/-- A builder that adds a node's marks, where it is open or outside, extends the one before. -/
theorem extends_of_marks {b b' : Builder} {c : Content} (hspelled : c.Spelled) {depth : Nat}
    (hdepth : depth ≤ b.openTags.length) (h : b'.trace = b.trace ++ c.marks depth) :
    b.Extends b' := by
  refine ⟨_, h, fun e he => ?_, fun hnil => absurd hnil (Content.marks_ne_nil hspelled depth)⟩
  rw [Content.depth_of_mem_marks (List.mem_of_mem_head? he)]
  exact hdepth

/-- **A token adds to the trace, and takes nothing away.** -/
theorem Takes.extends {b b' : Builder} (htake : b.Takes b') (h : b.Built) : b.Extends b' := by
  have hopen (token : Token) (n : Nat) :
      ((b.observe token).close n).openTags.length ≤ b.openTags.length := by
    rw [openTags_close, openTags_observe, List.length_drop]
    exact Nat.sub_le _ _
  cases htake with
  | text value hvalue =>
    obtain ⟨c, _, hspelled, htrace⟩ := trace_addText h hvalue
    exact extends_of_marks hspelled (Nat.le_refl _) htrace
  | close token n =>
    refine ⟨[], ?_, (fun e he => by cases he), fun _ => hopen token n⟩
    rw [trace_close, trace_observe, List.append_nil]
  | insert token n c htext hbuilt =>
    refine extends_of_marks hbuilt.spelled (hopen token n) ?_
    rw [trace_insert, trace_close, trace_observe, Forest.trace_nil, List.append_nil]
  | opened token n c helement hleaf hspelled =>
    refine extends_of_marks hspelled (hopen token n) ?_
    rw [trace_opened, trace_close, trace_observe]

/-- **Reading extends the trace.** -/
theorem Reaches.extends {b b' : Builder} (hreaches : b.Reaches b') (h : b.Built) :
    b.Extends b' := by
  have hstep ⦃after after' : Builder⦄ (htake : after.Takes after')
      (hinv : b.Extends after ∧ after.Built) : b.Extends after' ∧ after'.Built :=
    ⟨hinv.1.trans (htake.extends hinv.2), htake.built hinv.2⟩
  exact (hreaches.preserves hstep ⟨.refl b, h⟩).1

end Builder

end HtmlMinify
