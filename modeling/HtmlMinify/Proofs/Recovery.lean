import HtmlMinify.Proofs.ReadBack
import HtmlMinify.Proofs.TagRecovery
import HtmlMinify.Proofs.Trace

/-!
# A page that is read back tells what it is

The converse of `Forest.parse_markup`, for values in quotes. If the markup of a forest is read as
that forest, then its tags were told apart, its elements nested, its raw texts ended where they were
written to end. The trace of the final builder is known, and every token adds to it, so what each
token did can be read off: an element that came at another depth, or as a text, would have left
another trace.

## Main statements

* `Builder.Ready.recover_startTag`: a start tag.
* `Builder.Ready.recover_raw`: a raw text.
* `Builder.Aligned.recover`: a forest.
* `Forest.recovered_of_parse_markup`: a page.
-/

namespace HtmlMinify

open Text

namespace Builder

variable {maxDepth : Nat} {options : WriteOptions} {quirks : Bool} {outer pending : List String}
  {closer : Closer} {c : Content} {children siblings : Forest Content} {base b final : Builder}
  {rest : List Char} {more : List (Nat × Content)}

/-- A builder that is ready has the trace of its base. -/
theorem Ready.trace {f : Forest Content} (h : Ready quirks outer closer f base pending b) :
    b.trace = base.trace := by
  rw [← trace_close pending.length b, ← trace_bare, h.base, trace_bare]

theorem Ready.openTags_base {f : Forest Content}
    (h : Ready quirks outer closer f base pending b) : base.openTags = outer := by
  rw [← openTags_bare, ← h.base, openTags_bare, openTags_close, h.openTags, List.drop_left]

/-- What is read from here on extends the trace. -/
theorem exists_trace_of_run (hb : b.Built) {raw : Option String} {input : List Char}
    (h : run maxDepth b raw input = .ok final) :
    ∃ later, final.trace = b.trace ++ later ∧ ∀ e ∈ later.head?, e.1 ≤ b.openTags.length := by
  obtain ⟨later, htrace, hhead, _⟩ := (reaches_of_run h).extends hb
  exact ⟨later, htrace, hhead⟩

/-- Reading the markup of a forest from `b` has led to `final`, and the trace of the forest is found
where the forest was to be added, with `more` after it. -/
structure Aligned (maxDepth : Nat) (options : WriteOptions) (quirks : Bool) (outer : List String)
    (closer : Closer) (f : Forest Content) (ended : Bool) (base : Builder) (pending : List String)
    (b : Builder) (rest : List Char) (final : Builder) (more : List (Nat × Content)) : Prop where
  ready : Ready quirks outer closer f base pending b
  leftOpen : ended = true ↔ pending ≠ []
  built : b.Built
  apart : f.head?.any (·.isText) = true → base.endsInText = false
  follows : rest.head?.all (· == '<') = true
  run : run maxDepth b none (f.markup options quirks outer closer ++ rest) = .ok final
  traced : final.trace = b.trace ++ (f.trace outer.length ++ more)
  outside : ∀ e ∈ more.head?, e.1 < outer.length

variable {ended : Bool}

/-- What follows a node begins with its next sibling, or outside. -/
theorem head?_trace_append (hbuilt : siblings.Built outer) {depth : Nat}
    (hmore : ∀ e ∈ more.head?, e.1 < depth) {e : Nat × Content}
    (he : e ∈ (siblings.trace depth ++ more).head?) :
    e.1 < depth ∨ (e.1 = depth ∧ siblings.head?.any (·.isText) = e.2.isText) := by
  cases hsiblings : siblings.trace depth with
  | nil =>
    rw [hsiblings, List.nil_append] at he
    exact .inl (hmore e he)
  | cons first others =>
    rw [hsiblings, List.cons_append, List.head?_cons] at he
    have hfirst : (siblings.trace depth).head? = some e := by
      rw [hsiblings, List.head?_cons]
      exact he
    exact .inr (Forest.head?_trace hbuilt hfirst)

/-- A node that is stepped over and found as it was leaves its siblings aligned. -/
theorem Aligned.beside
    (h : Aligned maxDepth options quirks outer closer (.node c children siblings) ended base pending b
      rest final more)
    (hbuilt : Forest.NodeBuilt outer c children siblings.head?)
    (hsteps : StepsOver maxDepth options quirks outer c children siblings)
    (hstart : c.isElement = true → ended = false → Open.afterStart c.name quirks outer = outer)
    (hnests : children.Nests options quirks (c.name :: outer)
      ((c.closer? options quirks outer closer siblings.head?).getD (.endTag c.name outer.length))
      false)
    (hc : c.asRead options (rawIn outer) = c)
    (hchildren : children.asRead options (c.name :: outer) = children) :
    ∃ base' pending' b', Aligned maxDepth options quirks outer closer siblings
      (c.omitsEnd options quirks outer closer siblings.head?) base' pending' b' rest final more := by
  obtain ⟨b', pending', harrives, hready, hended⟩ := hsteps hstart hnests h.leftOpen h.ready
    (fun hc => h.apart (by simpa [Forest.head?] using hc)) h.follows
  rw [hc, hchildren] at hready
  refine ⟨_, pending', b', hready, hended, harrives.reaches.built h.built, fun hnext => ?_,
    h.follows, harrives.run.symm.trans h.run, ?_, h.outside⟩
  · rw [endsInText_insert, Bool.eq_false_iff]
    intro hisText
    rw [hbuilt.apart hisText] at hnext
    cases hnext
  · rw [h.traced, hready.trace, trace_insert, ← h.ready.trace, h.ready.openTags_base, Forest.trace]
    simp only [List.append_assoc]

/-! ## Texts and declarations -/

/-- Escaping makes no text shorter. -/
theorem length_le_length_escapeChars (cs : List Char) : cs.length ≤ (escapeChars cs).length := by
  induction cs with
  | nil => exact Nat.le_refl 0
  | cons c cs ih =>
    rw [escapeChars]
    split
    · rw [List.length_append, List.length_cons]
      have : 1 ≤ "&lt;".toList.length := by decide
      omega
    · exact Nat.succ_le_succ ih

/-- The marks that a text or a declaration leaves are found in place of its own. -/
theorem Aligned.marks_eq
    (h : Aligned maxDepth options quirks outer closer (.node c .nil siblings) ended base pending b
      rest final more)
    (hnot : c.isElement = false) (hsteps : StepsOver maxDepth options quirks outer c .nil siblings) :
    ∃ later, c.marks outer.length ++ (siblings.trace outer.length ++ more) =
      (c.asRead options (rawIn outer)).marks outer.length ++ later := by
  obtain ⟨b', pending', harrives, hready, _⟩ :=
    hsteps (fun helement => absurd helement (by simp [hnot])) trivial h.leftOpen h.ready
      (fun hc => h.apart (by simpa [Forest.head?] using hc)) h.follows
  obtain ⟨later, hlater, _⟩ :=
    exists_trace_of_run (harrives.reaches.built h.built) (harrives.run.symm.trans h.run)
  refine ⟨later, ?_⟩
  rw [h.traced, hready.trace, trace_insert, h.ready.trace, h.ready.openTags_base] at hlater
  simpa only [Forest.trace, Forest.asRead, List.append_nil, List.nil_append, List.append_assoc,
    List.append_cancel_left_eq] using hlater

/-- A text that is found was not changed by escaping. -/
theorem Aligned.asRead_text
    (h : Aligned maxDepth options quirks outer closer (.node c children siblings) ended base pending b
      rest final more)
    (hkind : c.kind = .text)
    (hbuilt : Forest.NodeBuilt outer c children siblings.head?) (hsiblings : siblings.Built outer)
    (houter : rawIn outer = false) : c.asRead options (rawIn outer) = c := by
  have hisText : c.isText = true := by simp [Content.isText, hkind]
  have hnot : c.isElement = false := by simp [Content.isElement, hkind]
  obtain rfl := hbuilt.childless (.inl hnot)
  obtain ⟨later, hlater⟩ := h.marks_eq hnot (stepsOver_text hkind hbuilt hsiblings houter)
  have hread : c.asRead options (rawIn outer) = .leaf .text (escapeText c.value) := by
    rw [Content.asRead_text hkind, houter, if_neg (by decide)]
  rw [hread] at hlater ⊢
  have hleaf : (Content.leaf .text (escapeText c.value)).isText = true := rfl
  -- The escaped text is no shorter, and what follows the text is no part of a text.
  have hlength : (c.marks outer.length).length ≤
      (Content.marks outer.length (.leaf .text (escapeText c.value))).length := by
    rw [Content.marks, if_pos hisText, Content.marks, if_pos hleaf, List.length_map,
      List.length_map]
    change _ ≤ (escapeText c.value).toList.length
    rw [escapeText, String.toList_ofList]
    exact length_le_length_escapeChars _
  have hprefix : c.marks outer.length <+:
      Content.marks outer.length (.leaf .text (escapeText c.value)) :=
    List.prefix_of_prefix_length_le ⟨_, hlater⟩ ⟨_, rfl⟩ hlength
  obtain ⟨extra, hextra⟩ := hprefix
  rw [← hextra, List.append_assoc, List.append_cancel_left_eq] at hlater
  cases extra with
  | nil =>
    rw [List.append_nil] at hextra
    exact (Content.eq_of_marks_eq hisText hleaf hbuilt.spelled hextra).symm
  | cons e extra =>
    exfalso
    have hmem : e ∈ Content.marks outer.length (.leaf .text (escapeText c.value)) := by
      rw [← hextra]
      simp
    have hdepth := Content.depth_of_mem_marks hmem
    have htext := Content.isText_of_mem_marks hmem
    rcases head?_trace_append hsiblings h.outside (e := e) (by rw [hlater]; rfl) with hless | hnext
    · omega
    · rw [hbuilt.apart hisText, htext] at hnext
      cases hnext.2

/-- So was a declaration. -/
theorem Aligned.asRead_declaration
    (h : Aligned maxDepth options quirks outer closer (.node c children siblings) ended base pending b
      rest final more)
    (hc : c.isDeclaration = true) (hbuilt : Forest.NodeBuilt outer c children siblings.head?) :
    c.asRead options (rawIn outer) = c := by
  have hnot : c.isElement = false ∧ c.isText = false := by
    unfold Content.isDeclaration at hc
    unfold Content.isElement Content.isText
    split at hc <;> simp_all
  obtain rfl := hbuilt.childless (.inl hnot.1)
  obtain ⟨later, hlater⟩ := h.marks_eq hnot.1 (stepsOver_declaration hc hbuilt)
  rw [Content.marks_of_not_isText hnot.2, Content.marks_of_not_isText (by
    rw [Content.isText_asRead, hnot.2])] at hlater
  exact (Prod.ext_iff.mp (List.cons.inj hlater).1).2.symm

/-! ## Start tags -/

/-- A start tag adds its element, where it comes. -/
theorem trace_of_start {token : Token} {tag : StartTag} {b' : Builder} {raw : Option String}
    {left : List String}
    (hleft : Open.afterStart tag.name (b.observe token).quirks b.openTags = left)
    (h : (b.observe token).start maxDepth tag = .ok (b', raw)) :
    b'.trace = b.trace ++ [(left.length, .element tag.name tag.attributes
      (Open.inForeign (tag.name :: left) && tag.selfClosing))] := by
  subst hleft
  obtain ⟨inner, hinner⟩ :=
    Open.afterStart_suffix tag.name (b.observe token).quirks (b.observe token).openTags
  have hopen : ((b.observe token).close inner.length).openTags =
      Open.afterStart tag.name (b.observe token).quirks b.openTags := by
    rw [openTags_close, ← hinner, List.drop_left, openTags_observe]
  have hbefore : ((b.observe token).close inner.length).trace = b.trace := by
    rw [trace_close, trace_observe]
  rw [start_of_afterStart hinner.symm (by rw [hinner]), openTags_observe] at h
  simp only at h
  split at h
  · cases h
    rw [trace_insert, hbefore, hopen, Content.marks_of_not_isText rfl, Forest.trace_nil,
      List.append_nil]
  · split at h
    · cases h
    · cases h
      rw [trace_opened, hbefore, hopen, Content.marks_of_not_isText rfl]

theorem element_self {c : Content} {name : String} {as : Attributes} {selfClosing : Bool}
    (h : c = .element name as selfClosing) : Content.element c.name c.attributes c.selfClosing = c := by
  subst h
  rfl

/-- **A start tag whose element is found where it was written** was told apart from what is around it,
came where it was to come, and was taken. -/
theorem Ready.recover_startTag
    (h : Ready quirks outer closer (.node c children siblings) base pending b) (hb : b.Built)
    (hquotes : options.omitQuotes = false) (hkind : c.kind = .element)
    (hbuilt : Forest.NodeBuilt outer c children siblings.head?)
    (hrun : run maxDepth b none ((c.writeStart options).toList ++ rest) = .ok final)
    (htrace : final.trace = b.trace ++ (outer.length, c) :: more) (raw : Bool) :
    c.attributes.Separate options ∧ Open.afterStart c.name quirks (pending ++ outer) = outer ∧
      c.asRead options raw = c ∧ (c.isLeafElement = false → outer.length + 1 ≤ maxDepth) := by
  obtain ⟨hname, has⟩ : Tag.IsName c.name ∧ c.attributes.Named := by
    have := hbuilt.spelled
    rwa [Content.Spelled, hkind] at this
  obtain ⟨token, unread, hnext, hcases⟩ :=
    Token.next?_writeStart_cases hquotes hname has rest
  cases hstep : b.step maxDepth token with
  | error e =>
    rw [run_of_error hnext hstep] at hrun
    cases hrun
  | ok result =>
    obtain ⟨b', raw'⟩ := result
    have harrives := arrives_of_step hnext hstep
    obtain ⟨later, hlater, _⟩ :=
      exists_trace_of_run (harrives.reaches.built hb) (harrives.run.symm.trans hrun)
    rcases hcases with ⟨tag, rfl, hseparate⟩ | ⟨value, rfl⟩
    · obtain ⟨_, hquirks⟩ := h.agrees.observe_startTag hkind tag
      have hstart := trace_of_start rfl hstep
      rw [htrace, hstart, List.append_assoc, List.append_cancel_left_eq, List.singleton_append,
        hquirks, h.openTags] at hlater
      obtain ⟨hdepth, hc⟩ := Prod.ext_iff.mp (List.cons.inj hlater).1
      have htagName : tag.name = c.name := (congrArg Content.name hc).symm
      rw [htagName] at hdepth
      have hafter : Open.afterStart c.name quirks (pending ++ outer) = outer :=
        eq_of_suffix_append (Open.afterStart_suffix _ _ _) hdepth.symm
      have hapart := hseparate (congrArg Content.attributes hc).symm
      -- So it is the tag that was written, and its attributes are those that were read.
      have hnext' := next?_writeStart hname has hapart rest
      rw [hnext] at hnext'
      cases hnext'
      have hattributes : c.attributes = c.attributes.asRead options :=
        congrArg Content.attributes hc
      refine ⟨hapart, hafter, ?_, fun hleaf => ?_⟩
      · rw [Content.asRead_element hkind, ← hattributes]
        exact element_self hc
      · rw [h.step_startTag hkind hbuilt hafter maxDepth options raw, if_neg (by simp [hleaf])] at hstep
        by_contra hdeep
        rw [if_pos (by omega)] at hstep
        cases hstep
    · exfalso
      cases hstep
      obtain ⟨t, htext, hspelled, ht⟩ :=
        trace_addText hb (Token.spelled_of_next? hnext : value ≠ "")
      obtain ⟨e, marks, hmarks⟩ :=
        List.exists_cons_of_ne_nil (Content.marks_ne_nil hspelled b.openTags.length)
      have hisText : e.2.isText = true := by
        rw [Content.isText_of_mem_marks (hmarks ▸ List.mem_cons_self), htext]
      change final.trace = (b.addText value).trace ++ later at hlater
      rw [htrace, ht, List.append_assoc, List.append_cancel_left_eq, hmarks, List.cons_append] at hlater
      rw [← (List.cons.inj hlater).1, Content.isText, hkind] at hisText
      exact absurd hisText (by decide)

/-! ## Raw texts -/

/-- A forest that leaves the trace of a text is that text. -/
theorem eq_text_of_trace {f : Forest Content} {value : String} (hvalue : value ≠ "")
    (hbuilt : f.Built outer) {depth : Nat}
    (h : f.trace depth = Content.marks depth (.leaf .text value)) :
    f = .node (.leaf .text value) .nil .nil := by
  have hleaf : (Content.leaf .text value).isText = true := rfl
  have hisText : ∀ e ∈ f.trace depth, e.2.isText = true := by
    intro e he
    rw [Content.isText_of_mem_marks (h ▸ he), hleaf]
  cases f with
  | nil =>
    have hspelled : (Content.leaf .text value).Spelled := hvalue
    exact absurd h.symm (Content.marks_ne_nil hspelled depth)
  | node c children siblings =>
    obtain ⟨hnode, _, hsiblings⟩ := hbuilt
    have hc : c.isText = true := by
      obtain ⟨e, he⟩ := List.exists_mem_of_ne_nil _ (Content.marks_ne_nil hnode.spelled depth)
      rw [← Content.isText_of_mem_marks he]
      exact hisText e (List.mem_append_left _ he)
    have hkind : c.kind = .text := by simpa [Content.isText] using hc
    obtain rfl := hnode.childless (.inl (by simp [Content.isElement, hkind]))
    rw [Forest.trace, Forest.trace_nil, List.nil_append] at h hisText
    have hnone : siblings.trace depth = [] := by
      cases hsibling : siblings.trace depth with
      | nil => rfl
      | cons e others =>
        have he := (Forest.head?_trace hsiblings (by rw [hsibling, List.head?_cons])).2
        rw [hnode.apart hc, hisText e (by simp [hsibling])] at he
        cases he
    obtain rfl := Forest.eq_nil_of_trace hsiblings hnone
    rw [hnone, List.append_nil] at h
    rw [Content.eq_of_marks_eq hc hleaf hnode.spelled h]

/-- What a raw text token adds. -/
theorem Ready.trace_addText (h : Ready quirks outer closer children base [] b)
    (hbase : base.endsInText = false) (value : String) :
    (b.addText value).trace = b.trace ++ Content.marks outer.length (.leaf .text value) := by
  have hbare : b.bare = base.bare := h.base
  have hends : (b.observe (.text value)).endsInText = false := by
    rw [← endsInText_bare, bare_observe, hbare, endsInText_bare, hbase]
  rw [addText, onChildren_joinText hends, trace_insert, trace_observe, openTags_observe,
    h.openTags, List.nil_append, Forest.trace_nil, List.append_nil]

section

variable {tag : String}

/-- Nothing ends the raw text of `plaintext`, so it is not found where it was written. -/
theorem Ready.not_plaintext (h : Ready quirks (tag :: outer) closer children base [] b)
    (htag : rawIn (tag :: outer) = true) (hbase : base.endsInText = false)
    (hbuilt : children.Built (tag :: outer))
    (hrun : run maxDepth b (some tag) (children.markup options quirks (tag :: outer) closer ++
      ((writeEnd tag).toList ++ rest)) = .ok final)
    (htrace : final.trace = b.trace ++ (children.trace (outer.length + 1) ++ more))
    (hmore : ∀ e ∈ more.head?, e.1 ≤ outer.length) :
    sameIgnoringCase tag "plaintext" = false := by
  rw [Bool.eq_false_iff]
  intro hplain
  generalize hinput : children.markup options quirks (tag :: outer) closer ++
    ((writeEnd tag).toList ++ rest) = input at hrun
  have hlonger : (children.markup options quirks (tag :: outer) closer).length < input.length := by
    rw [← hinput]
    simp [writeEnd]
  have hne : input ≠ [] := List.ne_nil_of_length_pos (by omega)
  have hnext : Token.next? (some tag) input = some (Token.ofText input, []) := by
    obtain ⟨first, others, rfl⟩ := List.exists_cons_of_ne_nil hne
    unfold Token.next?
    rw [Option.bind_some, Token.rawText?, if_pos hplain]
  rw [run_of_step hnext rfl, run_nil] at hrun
  cases hrun
  change (b.addText (String.ofList input)).trace = _ at htrace
  rw [h.trace_addText hbase, List.append_cancel_left_eq, ← List.append_nil (Content.marks _ _)]
    at htrace
  have hfound := (trace_append_inj outer.length (fun e he => ?_) (fun e he => ?_)
    (fun e he => by cases he) hmore htrace).1
  · have hchildren := eq_text_of_trace (Token.spelled_ofText hne) hbuilt hfound.symm
    rw [hchildren, Forest.markup_of_text rfl, htag, if_pos rfl, Forest.markup_nil] at hlonger
    simp [Content.leaf] at hlonger
  · rw [Content.depth_of_mem_marks he]
    exact Nat.lt_succ_self _
  · exact Forest.le_depth_of_mem_trace he

/-- The end tag of the innermost element ends it, in whatever letter case. -/
theorem arrives_endTag {name : String} {input unread : List Char} (hopen : b.openTags = tag :: outer)
    (hvoid : Tag.isVoid tag = false)
    (hnext : Token.next? none input = some (.endTag name, unread)) (hlower : lower name = lower tag) :
    Arrives maxDepth b none input ((b.observe (.endTag name)).close 1) none unread := by
  have hopen' : (b.observe (.endTag name)).openTags = [] ++ tag :: outer := by
    rw [openTags_observe, hopen, List.nil_append]
  refine arrives_of_step hnext ?_
  change ((b.observe (.endTag name)).finish maxDepth name).map (·, none) = _
  rw [finish_congr hlower, finish_of_afterEnd hopen' hvoid (Open.afterEnd_self hvoid outer)]
  rfl

variable (maxDepth) in
/-- A raw text is added up to where it stops. -/
theorem Ready.arrives_rawText (h : Ready quirks (tag :: outer) closer children base [] b)
    (hbase : base.endsInText = false) (hplain : sameIgnoringCase tag "plaintext" = false)
    {input before unread : List Char} (hraw : Token.rawText tag input = (before, unread)) :
    ∃ b', Arrives maxDepth b (some tag) input b' none unread ∧ b'.openTags = tag :: outer ∧
      b'.trace = b.trace ++
        Content.marks (outer.length + 1) (.leaf .text (String.ofList before)) := by
  cases before with
  | nil =>
    have hinput : input = unread := by
      have := Token.rawText_append tag input
      rw [hraw] at this
      exact this.symm
    have hnext : Token.next? (some tag) input = Token.next? none input := by
      unfold Token.next?
      rw [Option.bind_some, Token.rawText?, if_neg (by simp [hplain]), hraw]
      rfl
    subst hinput
    exact ⟨b, .refl hnext, h.openTags, (List.append_nil _).symm⟩
  | cons c cs =>
    have hnext : Token.next? (some tag) input = some (Token.ofText (c :: cs), unread) := by
      unfold Token.next?
      rw [Option.bind_some, Token.rawText?, if_neg (by simp [hplain]), hraw]
    refine ⟨b.addText (String.ofList (c :: cs)), arrives_of_step hnext rfl, ?_,
      h.trace_addText hbase _⟩
    rw [addText, openTags_onChildren, openTags_observe, h.openTags, List.nil_append]

/-- **A raw text that is found** ended at its end tag, and held none before. -/
theorem Ready.recover_raw (h : Ready quirks (tag :: outer) closer children base [] b) (hb : b.Built)
    (htag : rawIn (tag :: outer) = true) (hvoid : Tag.isVoid tag = false)
    (hplain : sameIgnoringCase tag "plaintext" = false)
    (hbase : base.endsInText = false) (hbuilt : children.Built (tag :: outer))
    (hrun : run maxDepth b (some tag) (children.markup options quirks (tag :: outer) closer ++
      ((writeEnd tag).toList ++ rest)) = .ok final)
    (htrace : final.trace = b.trace ++ (children.trace (outer.length + 1) ++ more))
    (hmore : ∀ e ∈ more.head?, e.1 ≤ outer.length) :
    children.RawBelow tag ∧ children.asRead options (tag :: outer) = children := by
  have hisRaw : Tag.isRawText tag = true := by
    simp only [rawIn, List.head?_cons, Option.any_some, Bool.and_eq_true] at htag
    exact htag.2
  have hstop : Token.endsRawText tag ((writeEnd tag).toList ++ rest) = true := by
    rw [show (writeEnd tag).toList ++ rest = '<' :: '/' :: (tag.toList ++ '>' :: rest) by
      simp [writeEnd], Token.endsRawText, afterIgnoringCase?_self]
    rfl
  -- The text may stop inside what was written for the children; the trace then says otherwise.
  obtain ⟨before, middle, _, hraw, hmiddle, hbefore⟩ :=
    Token.rawText_append_of_endsRawText hstop
      (children.markup options quirks (tag :: outer) closer)
  obtain ⟨name, unread, hnext, hlower⟩ :=
    Token.next?_of_endsRawText hisRaw hmiddle (by simp [writeEnd])
  obtain ⟨b₁, hfirst, hopen, htrace₁⟩ := h.arrives_rawText maxDepth hbase hplain hraw
  have harrives := hfirst.trans (arrives_endTag hopen hvoid hnext hlower)
  obtain ⟨later, hlater, houtside⟩ :=
    exists_trace_of_run (harrives.reaches.built hb) (harrives.run.symm.trans hrun)
  rw [openTags_close, openTags_observe, hopen, List.drop_one, List.tail_cons] at houtside
  rw [htrace, trace_close, trace_observe, htrace₁, List.append_assoc, List.append_cancel_left_eq]
    at hlater
  have hfound := (trace_append_inj outer.length
    (fun e he => Forest.le_depth_of_mem_trace he)
    (fun e he => by rw [Content.depth_of_mem_marks he]; exact Nat.lt_succ_self _)
    hmore houtside hlater).1
  cases before with
  | nil =>
    obtain rfl := Forest.eq_nil_of_trace hbuilt hfound
    exact ⟨trivial, rfl⟩
  | cons c cs =>
    have hvalue : String.ofList (c :: cs) ≠ "" := Token.spelled_ofText (List.cons_ne_nil c cs)
    obtain rfl := eq_text_of_trace hvalue hbuilt hfound
    refine ⟨⟨rfl, ?_, rfl, rfl⟩, ?_⟩
    · rw [Content.leaf, String.toList_ofList]
      exact hbefore
    · rw [Forest.asRead, htag, Content.asRead_text rfl, if_pos rfl]
      rfl

end

/-! ## Forests -/

/-- What is known of a forest inside `outer` that was read back as it was. -/
structure Recovered (maxDepth : Nat) (options : WriteOptions) (quirks : Bool) (outer : List String)
    (closer : Closer) (ended : Bool) (f : Forest Content) : Prop where
  spelled : f.Spelled options outer
  nests : f.Nests options quirks outer closer ended
  asRead : f.asRead options outer = f
  height : outer.length ≤ maxDepth → outer.length + f.height ≤ maxDepth

theorem recovered_nil :
    Recovered maxDepth options quirks outer closer ended .nil :=
  ⟨trivial, trivial, rfl, fun h => h⟩

/-- The same of its first node. -/
structure NodeRecovered (maxDepth : Nat) (options : WriteOptions) (quirks : Bool)
    (outer : List String) (closer : Closer) (ended : Bool) (c : Content)
    (children siblings : Forest Content) : Prop where
  spelled : Forest.NodeSpelled options outer c children siblings.head?
  start : c.isElement = true → ended = false → Open.afterStart c.name quirks outer = outer
  asRead : c.asRead options (rawIn outer) = c
  depth : c.isElement = true → c.isLeafElement = false → outer.length + 1 ≤ maxDepth
  below : Recovered maxDepth options quirks (c.name :: outer)
    ((c.closer? options quirks outer closer siblings.head?).getD (.endTag c.name outer.length))
    false children

/-- The text of a raw text element can be written, and nests. -/
theorem recovered_of_rawBelow {tag : String} (hbuilt : children.Built outer)
    (hraw : children.RawBelow tag) (hread : children.asRead options outer = children) :
    Recovered maxDepth options quirks outer closer ended children := by
  cases children with
  | nil => exact recovered_nil
  | node c below after =>
    obtain ⟨hkind, _, rfl, rfl⟩ := hraw
    have hnot : c.isElement = false := by simp [Content.isElement, hkind]
    refine ⟨⟨⟨hbuilt.1, ?_, ?_⟩, trivial, trivial⟩, ⟨?_, trivial, trivial⟩, hread, fun h => ?_⟩
    · simp [hnot]
    · simp [hnot]
    · simp [hnot]
    · simpa [Forest.height, hnot] using h

/-- An element without content holds no raw text. -/
theorem rawIn_of_isLeafElement (hbuilt : Forest.NodeBuilt outer c children siblings.head?)
    (hkind : c.kind = .element) (hleaf : c.isLeafElement = true) :
    rawIn (c.name :: outer) = false := by
  rcases Bool.or_eq_true_iff.mp hleaf with hself | hvoid
  · rw [rawIn, hbuilt.foreign (by simp [Content.isElement, hkind]) hself]
    rfl
  · have htables : ∀ name ∈ Tag.voidElements, name ∉ Tag.rawTextElements := by decide
    have hnot := htables _ (by simpa [Tag.isVoid, inTable] using hvoid)
    simp [rawIn, Tag.isRawText, inTable, hnot]

/-- A node that is no element can be written as it is. -/
theorem nodeRecovered_of_not_isElement
    (hbuilt : Forest.NodeBuilt outer c children siblings.head?) (hnot : c.isElement = false)
    (hread : c.asRead options (rawIn outer) = c) :
    NodeRecovered maxDepth options quirks outer closer ended c children siblings := by
  obtain rfl := hbuilt.childless (.inl hnot)
  exact ⟨⟨hbuilt, by simp [hnot], by simp [hnot]⟩, by simp [hnot], hread, by simp [hnot],
    recovered_nil⟩

section

variable
  (h : Aligned maxDepth options quirks outer closer (.node c children siblings) ended base pending b
    rest final more)

include h

/-- The start tag of an element. -/
theorem Aligned.recover_startTag (hquotes : options.omitQuotes = false) (hkind : c.kind = .element)
    (hbuilt : Forest.NodeBuilt outer c children siblings.head?) {after : List Char}
    (hmarkup : (Forest.node c children siblings).markup options quirks outer closer ++ rest =
      (c.writeStart options).toList ++ after) :
    c.attributes.Separate options ∧ Open.afterStart c.name quirks (pending ++ outer) = outer ∧
      c.asRead options (rawIn outer) = c ∧
      (c.isLeafElement = false → outer.length + 1 ≤ maxDepth) := by
  have hrun := h.run
  have htrace := h.traced
  rw [hmarkup] at hrun
  rw [Forest.trace, Content.marks_of_not_isText (by simp [Content.isText, hkind])] at htrace
  exact h.ready.recover_startTag h.built hquotes hkind hbuilt hrun htrace (rawIn outer)

/-- What was left open was ended, or nothing was. -/
theorem Aligned.start (hafter : Open.afterStart c.name quirks (pending ++ outer) = outer)
    (hended : ended = false) : Open.afterStart c.name quirks outer = outer := by
  have hpending : pending = [] := by
    by_contra hne
    rw [h.leftOpen.mpr hne] at hended
    cases hended
  rwa [hpending] at hafter

/-- A void or self-closing element. -/
theorem Aligned.recover_leafElement (hquotes : options.omitQuotes = false)
    (hkind : c.kind = .element) (hleaf : c.isLeafElement = true)
    (hbuilt : Forest.NodeBuilt outer c children siblings.head?) :
    NodeRecovered maxDepth options quirks outer closer ended c children siblings := by
  obtain rfl := hbuilt.childless (.inr hleaf)
  obtain ⟨hseparate, hafter, hread, _⟩ := h.recover_startTag hquotes hkind hbuilt (by
    rw [Forest.markup_of_leafElement hkind hleaf rfl, List.append_assoc])
  refine ⟨⟨hbuilt, fun _ => hseparate, fun _ hraw => ?_⟩, fun _ => h.start hafter, hread,
    fun _ hnot => ?_, recovered_nil⟩
  · rw [rawIn_of_isLeafElement hbuilt hkind hleaf] at hraw
    cases hraw
  · rw [hleaf] at hnot
    cases hnot

/-- The end tag of an element is written, or what stands in for it begins with a tag. -/
theorem Aligned.follows_children (hsiblings : siblings.Built outer) :
    (c.endTag (c.closer? options quirks outer closer siblings.head?) ++
      (siblings.markup options quirks outer closer ++ rest)).head?.all (· == '<') = true := by
  cases hclose : c.closer? options quirks outer closer siblings.head? with
  | none => simp [Content.endTag, writeEnd]
  | some closer' =>
    rw [Content.endTag, Option.isSome_some, if_pos rfl, List.nil_append]
    exact Forest.head?_markup hsiblings (Content.not_isText_of_closer? hclose) h.follows

/-- An element with content, if what was read of it tells what its children are. -/
theorem Aligned.recover_element (hquotes : options.omitQuotes = false) (hkind : c.kind = .element)
    (hleaf : c.isLeafElement = false) (hbuilt : Forest.NodeBuilt outer c children siblings.head?)
    (hbelow : children.Built (c.name :: outer)) (hsiblings : siblings.Built outer)
    (hchildren : rawIn (c.name :: outer) = false →
      ∀ ⦃closer' : Closer⦄ ⦃base' b' : Builder⦄ ⦃rest' : List Char⦄ ⦃more' : List (Nat × Content)⦄,
        Aligned maxDepth options quirks (c.name :: outer) closer' children false base' [] b' rest'
          final more' →
        Recovered maxDepth options quirks (c.name :: outer) closer' false children) :
    NodeRecovered maxDepth options quirks outer closer ended c children siblings := by
  have helement : c.isElement = true := by simp [Content.isElement, hkind]
  have hvoid : Tag.isVoid c.name = false := (Bool.or_eq_false_iff.mp hleaf).2
  obtain ⟨hname, has⟩ : Tag.IsName c.name ∧ c.attributes.Named := by
    have := hbuilt.spelled
    rwa [Content.Spelled, hkind] at this
  have hmarkup : (Forest.node c children siblings).markup options quirks outer closer ++ rest = _ :=
    congrArg (· ++ rest) (Forest.markup_of_element hkind hleaf)
  simp only [List.append_assoc] at hmarkup
  obtain ⟨hseparate, hafter, hread, hdepth⟩ := h.recover_startTag hquotes hkind hbuilt hmarkup
  have hstep := h.ready.step_startTag hkind hbuilt hafter maxDepth options (rawIn outer)
  rw [if_neg (by simp [hleaf]), if_neg (by have := hdepth hleaf; omega), hread] at hstep
  have harrives (after : List Char) :=
    arrives_of_step (next?_writeStart hname has hseparate after) hstep
  have hrun := (harrives _).run.symm.trans (hmarkup ▸ h.run)
  have hopened := h.ready.opened hkind options (rfl : c.name = c.name)
    ((c.closer? options quirks outer closer siblings.head?).getD (.endTag c.name outer.length))
  have htrace : final.trace = (opened c (b.cleared options pending c)).trace ++
      (children.trace (outer.length + 1) ++ (siblings.trace outer.length ++ more)) := by
    rw [h.traced, hopened.trace, trace_opened, h.ready.openTags_base, h.ready.trace, Forest.trace]
    simp only [List.append_assoc]
  have houtside : ∀ e ∈ (siblings.trace outer.length ++ more).head?, e.1 ≤ outer.length := by
    intro e he
    rcases head?_trace_append hsiblings h.outside he with hless | ⟨heq, _⟩
    · exact Nat.le_of_lt hless
    · exact Nat.le_of_eq heq
  have hb := (harrives []).reaches.built h.built
  have hends : (base.opened c).endsInText = false := endsInText_opened c base
  cases hraw : rawIn (c.name :: outer) with
  | false =>
    rw [hraw, if_neg (by decide)] at hrun
    have hrecovered := hchildren hraw ⟨hopened, by simp, hb, fun _ => hends,
      h.follows_children hsiblings, hrun, htrace,
      fun e he => Nat.lt_succ_of_le (houtside e he)⟩
    refine ⟨⟨hbuilt, fun _ => hseparate, fun _ h => ?_⟩, fun _ => h.start hafter, hread,
      fun _ => hdepth, hrecovered⟩
    rw [hraw] at h
    cases h
  | true =>
    -- The end tag of a raw text element is never left out.
    have hclose : c.closer? options quirks outer closer siblings.head? = none := by
      cases hclose : c.closer? options quirks outer closer siblings.head? with
      | none => rfl
      | some closer' =>
        rw [Content.rawIn_of_closer? hclose] at hraw
        cases hraw
    rw [hraw, if_pos rfl, hclose, Content.endTag, Option.isSome_none, if_neg (by decide)] at hrun
    rw [hclose] at hopened
    have hplain := hopened.not_plaintext hraw hends hbelow hrun htrace houtside
    obtain ⟨hrawBelow, hsame⟩ :=
      hopened.recover_raw hb hraw hvoid hplain hends hbelow hrun htrace houtside
    exact ⟨⟨hbuilt, fun _ => hseparate, fun _ _ => ⟨hplain, hrawBelow⟩⟩, fun _ => h.start hafter,
      hread, fun _ => hdepth, recovered_of_rawBelow hbelow hrawBelow hsame⟩

end

/-- Any node. -/
theorem Aligned.recover_node
    (h : Aligned maxDepth options quirks outer closer (.node c children siblings) ended base pending b
      rest final more)
    (hquotes : options.omitQuotes = false)
    (hbuilt : (Forest.node c children siblings).Built outer) (houter : rawIn outer = false)
    (hchildren : rawIn (c.name :: outer) = false →
      ∀ ⦃closer' : Closer⦄ ⦃base' b' : Builder⦄ ⦃rest' : List Char⦄ ⦃more' : List (Nat × Content)⦄,
        Aligned maxDepth options quirks (c.name :: outer) closer' children false base' [] b' rest'
          final more' →
        Recovered maxDepth options quirks (c.name :: outer) closer' false children) :
    NodeRecovered maxDepth options quirks outer closer ended c children siblings := by
  obtain ⟨hnode, hbelow, hsiblings⟩ := hbuilt
  cases hkind : c.kind with
  | element =>
    cases hleaf : c.isLeafElement with
    | true => exact h.recover_leafElement hquotes hkind hleaf hnode
    | false => exact h.recover_element hquotes hkind hleaf hnode hbelow hsiblings hchildren
  | text =>
    exact nodeRecovered_of_not_isElement hnode (by simp [Content.isElement, hkind])
      (h.asRead_text hkind hnode hsiblings houter)
  | document =>
    have := hnode.spelled
    simp [Content.Spelled, Content.SpelledAs, hkind] at this
  | comment | cdata | instruction | doctype =>
    exact nodeRecovered_of_not_isElement hnode (by simp [Content.isElement, hkind])
      (h.asRead_declaration (by simp [Content.isDeclaration, hkind]) hnode)

/-- A node is stepped over once it is known how it was read. -/
theorem NodeRecovered.stepsOver
    (h : NodeRecovered maxDepth options quirks outer closer ended c children siblings)
    (hsiblings : siblings.Built outer) (houter : rawIn outer = false) :
    StepsOver maxDepth options quirks outer c children siblings :=
  Builder.stepsOver h.spelled h.below.spelled hsiblings h.depth houter
    fun helement hleaf hraw => readsBack maxDepth options quirks h.below.spelled
      (h.below.height (h.depth helement hleaf)) hraw

/-- **A forest that was read back as it was can be written, and nests.** -/
theorem Aligned.recover {f : Forest Content}
    (h : Aligned maxDepth options quirks outer closer f ended base pending b rest final more)
    (hquotes : options.omitQuotes = false) (hbuilt : f.Built outer) (houter : rawIn outer = false) :
    Recovered maxDepth options quirks outer closer ended f := by
  induction f generalizing outer closer ended base pending b rest more with
  | nil => exact recovered_nil
  | node c children siblings ihc ihs =>
    have hnode := h.recover_node hquotes hbuilt houter fun hraw _ _ _ _ _ halign =>
      ihc halign hbuilt.2.1 hraw
    obtain ⟨base', pending', b', hbeside⟩ := h.beside hbuilt.1
      (hnode.stepsOver hbuilt.2.2 houter) hnode.start hnode.below.nests hnode.asRead
      hnode.below.asRead
    have hsiblings := ihs hbeside hbuilt.2.2 houter
    refine ⟨⟨hnode.spelled, hnode.below.spelled, hsiblings.spelled⟩,
      ⟨hnode.start, hnode.below.nests, hsiblings.nests⟩, ?_, fun hdepth => ?_⟩
    · rw [Forest.asRead, hnode.asRead, hnode.below.asRead, hsiblings.asRead]
    · have hbeside := hsiblings.height hdepth
      rw [Forest.height]
      by_cases hopens : (c.isElement && !c.isLeafElement) = true
      · obtain ⟨helement, hleaf⟩ : c.isElement = true ∧ c.isLeafElement = false := by
          simpa using hopens
        have hbelow := hnode.below.height (hnode.depth helement hleaf)
        rw [List.length_cons] at hbelow
        rw [if_pos hopens]
        omega
      · rw [if_neg hopens]
        omega

end Builder

/-- **A page that was read back as it was can be written, and nests.** -/
theorem Forest.recovered_of_parse_markup {maxDepth : Nat} {options : WriteOptions}
    (hquotes : options.omitQuotes = false) {f : Forest Content} (hbuilt : f.Built [])
    (h : Forest.parse maxDepth
        (String.ofList (f.markup options (Doctype.pageQuirks f.roots) [] .endOfPage)) = .ok f) :
    Builder.Recovered maxDepth options (Doctype.pageQuirks f.roots) [] .endOfPage false f := by
  rw [Forest.parse, String.toList_ofList] at h
  cases hrun : Builder.run maxDepth {} none
      (f.markup options (Doctype.pageQuirks f.roots) [] .endOfPage) with
  | error e =>
    rw [hrun] at h
    cases h
  | ok final =>
    rw [hrun] at h
    have hforest : final.forest = f := by
      cases h
      rfl
    have haligned : Builder.Aligned maxDepth options (Doctype.pageQuirks f.roots) [] .endOfPage f
        false {} [] {} [] final [] := by
      refine ⟨Builder.ready_start f, by simp, ⟨trivial, trivial⟩, fun _ => rfl, rfl, ?_, ?_,
        by simp⟩
      · rw [List.append_nil, hrun]
      · rw [← Builder.trace_forest, hforest, List.append_nil]
        rfl
    exact haligned.recover hquotes hbuilt rfl

end HtmlMinify
