import HtmlMinify.Proofs.Steps

/-!
# Markup is read back as the forest it was written from

Reading the markup of a forest adds the forest's trees to the builder, one node after the other. The
invariant is `Ready`: the open elements are those that the next tree stands in, and inside them some
elements whose end tags were left out, which what comes next will end. Each kind of node takes a
builder that is ready for the node to one that is ready for its siblings; the markup of a whole
forest is then read by induction over the forest.

## Main statements

* `Builder.run_of_isPlain`: an escaped text.
* `Builder.stepsOver`: one node, inside any open elements and in front of anything.
* `Builder.readsBack`: a forest.
* `Forest.parse_markup`: a page.
-/

namespace HtmlMinify

open Text

namespace Builder

/-! ## Quirks mode -/

/-- What the builder knows of quirks mode fits a page in the mode `quirks`, of whose top nodes `tops`
are still to come. -/
def Agrees (b : Builder) (quirks : Bool) (tops : List Content) : Prop :=
  (b.decided = true ∧ b.quirks = quirks) ∨
    (b.decided = false ∧ b.quirks = true ∧ Doctype.pageQuirks tops = quirks)

/-- Once the mode is decided, what follows does not matter to it. -/
theorem Agrees.of_decided {b : Builder} {quirks : Bool} {tops : List Content}
    (h : b.Agrees quirks tops) (hdecided : b.decided = true) (tops' : List Content) :
    b.Agrees quirks tops' := by
  rcases h with h | ⟨hnot, _⟩
  · exact .inl h
  · rw [hdecided] at hnot
    cases hnot

/-- A start tag settles the mode. -/
theorem Agrees.observe_startTag {b : Builder} {quirks : Bool} {c : Content} {tops : List Content}
    (h : b.Agrees quirks (c :: tops)) (hc : c.kind = .element) (tag : StartTag) :
    (b.observe (.startTag tag)).decided = true ∧
      (b.observe (.startTag tag)).quirks = quirks := by
  rcases h with ⟨_, hquirks⟩ | ⟨_, hquirks, hpage⟩
  · exact ⟨rfl, hquirks⟩
  · rw [Doctype.pageQuirks, hc] at hpage
    exact ⟨rfl, hquirks.trans hpage⟩

/-- A text settles the mode unless it is blank. -/
theorem Agrees.observe_text {b : Builder} {quirks : Bool} {c : Content} {tops : List Content}
    (h : b.Agrees quirks (c :: tops)) (hc : c.kind = .text) {value : String}
    (hvalue : isBlank value = isBlank c.value) : (b.observe (.text value)).Agrees quirks tops := by
  rw [observe]
  rcases h with ⟨hdecided, hquirks⟩ | ⟨hdecided, hquirks, hpage⟩
  · split
    · exact .inl ⟨hdecided, hquirks⟩
    · exact .inl ⟨rfl, hquirks⟩
  · rw [Doctype.pageQuirks, hc] at hpage
    simp only at hpage
    by_cases hblank : isBlank value = true
    · rw [if_pos hblank]
      rw [if_pos (by rw [← hvalue]; exact hblank)] at hpage
      exact .inr ⟨hdecided, hquirks, hpage⟩
    · rw [if_neg hblank]
      rw [if_neg (by rw [← hvalue]; exact hblank)] at hpage
      exact .inl ⟨rfl, hquirks.trans hpage⟩

/-- A doctype settles the mode, other declarations leave it open. -/
theorem Agrees.observe_leafToken {b : Builder} {quirks : Bool} {c : Content} {tops : List Content}
    (h : b.Agrees quirks (c :: tops)) (hc : c.isDeclaration = true) :
    (b.observe c.leafToken).Agrees quirks tops := by
  unfold Content.isDeclaration at hc
  rcases h with ⟨hdecided, hquirks⟩ | ⟨hdecided, hquirks, hpage⟩
  · refine .inl ?_
    unfold Content.leafToken
    split at hc
    · next hkind => simpa [hkind, observe, hdecided] using hquirks
    · next hkind => simpa [hkind, observe, hdecided] using hquirks
    · next hkind => simpa [hkind, observe, hdecided] using hquirks
    · next hkind => simpa [hkind, observe, hdecided] using hquirks
    · cases hc
  · unfold Content.leafToken
    rw [Doctype.pageQuirks] at hpage
    split at hc
    · next hkind =>
      simp only [hkind] at hpage
      simp only [hkind, observe, hdecided, Bool.false_eq_true, if_false]
      rw [hpage]
      exact .inl ⟨rfl, rfl⟩
    · next hkind =>
      rw [hkind] at hpage
      simp only [hkind, observe]
      exact .inr ⟨hdecided, hquirks, hpage⟩
    · next hkind =>
      rw [hkind] at hpage
      simp only [hkind, observe]
      exact .inr ⟨hdecided, hquirks, hpage⟩
    · next hkind =>
      rw [hkind] at hpage
      simp only [hkind, observe]
      exact .inr ⟨hdecided, hquirks, hpage⟩
    · cases hc

/-! ## Texts and declarations -/

/-- **An escaped text is read as one text**, though in pieces. -/
theorem run_of_isPlain (maxDepth : Nat) {cs rest : List Char} (h : IsPlain cs) (hne : cs ≠ [])
    (hrest : rest.head?.all (· == '<') = true) (b : Builder) :
    run maxDepth b none (cs ++ rest) = run maxDepth (b.addText (String.ofList cs)) none rest := by
  induction hlen : cs.length using Nat.strong_induction_on generalizing cs b with
  | h n ih =>
    obtain ⟨c, more, rfl⟩ := List.exists_cons_of_ne_nil hne
    rw [run_of_step (Token.next?_of_isPlain h hrest) rfl]
    change run maxDepth (b.addText (String.ofList (c :: more.takeWhile (· != '<')))) none
      (more.dropWhile (· != '<') ++ rest) = _
    have hsplit := List.takeWhile_append_dropWhile (p := (· != '<')) (l := more)
    cases hmore : more.dropWhile (· != '<') with
    | nil =>
      rw [hmore, List.append_nil] at hsplit
      rw [hsplit, List.nil_append]
    | cons d later =>
      rw [hmore] at hsplit
      have hlater : IsPlain (d :: later) := hmore ▸ h.dropWhile _
      have hshort : (d :: later).length < n := by
        rw [← hlen, ← hsplit]
        simp only [List.length_cons, List.length_append]
        omega
      rw [ih _ hshort hlater (by simp) _ rfl, addText_addText, ← String.ofList_append,
        List.cons_append, hsplit]

/-- Plain text in front of markup is added to the tree. -/
theorem arrives_of_isPlain (maxDepth : Nat) {cs rest : List Char} (h : IsPlain cs) (hne : cs ≠ [])
    (hrest : rest.head?.all (· == '<') = true) (b : Builder) :
    Arrives maxDepth b none (cs ++ rest) (b.addText (String.ofList cs)) none rest :=
  ⟨run_of_isPlain maxDepth h hne hrest b, .single (.text _ (Token.spelled_ofText hne))⟩

/-- A declaration is read as a node. -/
theorem arrives_writeLeaf (maxDepth : Nat) (options : WriteOptions) (raw : Bool) {c : Content}
    (hc : c.isDeclaration = true) (h : c.Spelled) (rest : List Char) (b : Builder) :
    Arrives maxDepth b none (c.writeLeaf ++ rest)
      ((b.observe c.leafToken).insert (c.asRead options raw, .nil)) none rest := by
  refine arrives_of_step (Token.next?_writeLeaf hc h rest) ?_
  unfold Content.isDeclaration at hc
  unfold Content.leafToken Content.asRead
  split at hc
  · next hkind => simp [hkind, step]
  · next hkind => simp [hkind, step]
  · next hkind => simp [hkind, step]
  · next hkind => simp [hkind, step]
  · cases hc

/-! ## The invariant -/

/-- What comes next ends the elements `pending` and leaves `outer` open: the next node's start tag,
or else `closer`. -/
def Resumes (quirks : Bool) (outer : List String) (closer : Closer) (pending : List String) :
    Option Content → Prop
  | none => closer.reopens quirks (pending ++ outer) = true
  | some next =>
    next.isElement = true ∧ Open.afterStart next.name quirks (pending ++ outer) = outer

/-- The builder is ready to read the forest `f` inside `outer`: the elements `pending` are still open
there, and without them it is `base`, as far as trees go. -/
structure Ready (quirks : Bool) (outer : List String) (closer : Closer) (f : Forest Content)
    (base : Builder) (pending : List String) (b : Builder) : Prop where
  openTags : b.openTags = pending ++ outer
  base : (b.close pending.length).bare = base.bare
  resumes : pending ≠ [] → Resumes quirks outer closer pending f.head?
  agrees : b.Agrees quirks f.roots
  decided : outer ≠ [] → b.decided = true

/-- What stands in for an end tag comes next. -/
theorem resumes_of_closer? {options : WriteOptions} {quirks : Bool} {outer pending : List String}
    {closer closer' : Closer} {c : Content} {next : Option Content}
    (h : c.closer? options quirks outer closer next = some closer')
    (hreopens : closer'.reopens quirks (pending ++ outer) = true) :
    Resumes quirks outer closer pending next := by
  have htrigger := Content.eq_of_closer? h
  cases next with
  | none =>
    rw [htrigger] at hreopens
    exact hreopens
  | some next =>
    obtain ⟨helement, rfl⟩ := htrigger
    exact ⟨helement, Closer.afterStart_of_reopens hreopens⟩

section

variable {maxDepth : Nat} {options : WriteOptions} {quirks : Bool} {outer pending : List String}
  {closer : Closer} {c : Content} {children siblings : Forest Content} {base b : Builder}

/-- In front of a node that is no element nothing is left open. -/
theorem Ready.pending_eq_nil (h : Ready quirks outer closer (.node c children siblings) base pending b)
    (hc : c.isElement = false) : pending = [] := by
  by_contra hne
  have hresumes : c.isElement = true ∧ _ := h.resumes hne
  rw [hc] at hresumes
  exact absurd hresumes.1 (by decide)

/-- A text takes a builder that is ready for it to one that is ready for its siblings. -/
theorem Ready.text (h : Ready quirks outer closer (.node c children siblings) base pending b)
    (hc : c.kind = .text) (hbase : base.endsInText = false) {value : String}
    (hvalue : isBlank value = isBlank c.value) :
    Ready quirks outer closer siblings (base.insert (.leaf .text value, .nil)) []
      (b.addText value) := by
  have hpending := h.pending_eq_nil (by simp [Content.isElement, hc])
  subst hpending
  have hbare : b.bare = base.bare := h.base
  refine ⟨?_, ?_, fun hne => absurd rfl hne, ?_, fun hne => ?_⟩
  · rw [addText, openTags_onChildren, openTags_observe, h.openTags]
  · rw [List.length_nil, close, addText, bare_onChildren, bare_observe, hbare, ← bare_onChildren,
      onChildren_joinText hbase]
  · have hobserve := h.agrees.observe_text hc hvalue
    unfold Agrees at hobserve ⊢
    rwa [addText, decided_onChildren, quirks_onChildren]
  · rw [addText, decided_onChildren, decided_observe (h.decided hne)]

/-- So does a declaration. -/
theorem Ready.declaration (h : Ready quirks outer closer (.node c children siblings) base pending b)
    (hc : c.isDeclaration = true) (tree : Tree) :
    Ready quirks outer closer siblings (base.insert tree) []
      ((b.observe c.leafToken).insert tree) := by
  have hpending := h.pending_eq_nil (by
    unfold Content.isDeclaration at hc
    unfold Content.isElement
    split at hc <;> simp_all)
  subst hpending
  have hbare : b.bare = base.bare := h.base
  refine ⟨?_, ?_, fun hne => absurd rfl hne, ?_, fun hne => ?_⟩
  · rw [openTags_insert, openTags_observe, h.openTags]
  · rw [List.length_nil, close, bare_insert, bare_observe, hbare, ← bare_insert]
  · have hobserve := h.agrees.observe_leafToken hc
    unfold Agrees at hobserve ⊢
    rwa [insert, decided_onChildren, quirks_onChildren]
  · rw [insert, decided_onChildren, decided_observe (h.decided hne)]

/-- The next start tag ends what is still open, if the forest is nested well enough. -/
theorem Ready.afterStart (h : Ready quirks outer closer (.node c children siblings) base pending b)
    {ended : Bool} (hended : ended = true ↔ pending ≠ [])
    (hnests : ended = false → Open.afterStart c.name quirks outer = outer) :
    Open.afterStart c.name quirks (pending ++ outer) = outer := by
  by_cases hpending : pending = []
  · have hfalse : ended = false := by
      rw [Bool.eq_false_iff]
      exact fun htrue => hended.mp htrue hpending
    rw [hpending]
    exact hnests hfalse
  · exact (h.resumes hpending).2

/-- The start tag of a node, as it is read. -/
def startTagOf (options : WriteOptions) (c : Content) : StartTag :=
  ⟨c.name, c.attributes.asRead options, c.selfClosing⟩

/-- The builder in front of an element, what was left open before it ended. -/
def cleared (options : WriteOptions) (pending : List String) (c : Content) (b : Builder) : Builder :=
  (b.observe (.startTag (startTagOf options c))).close pending.length

/-- **A start tag is read as it is**, whatever follows it. -/
theorem next?_writeStart (hname : Tag.IsName c.name) (has : c.attributes.Named)
    (hseparate : c.attributes.Separate options) (rest : List Char) :
    Token.next? none ((c.writeStart options).toList ++ rest) =
      some (.startTag (startTagOf options c), rest) := by
  rw [show Token.next? none ((c.writeStart options).toList ++ rest) =
    Token.plain? (Token.dropEmptyEndTags ((c.writeStart options).toList ++ rest)) from rfl,
    Token.dropEmptyEndTags_writeStart options hname, Token.plain?_writeStart hname has hseparate]
  rfl

/-- The start tag of an element without attributes. -/
theorem next?_bareTag (name : String) (hname : Tag.IsName name) (rest : List Char) :
    Token.next? none ('<' :: (name.toList ++ '>' :: rest)) =
      some (.startTag ⟨name, .empty, false⟩, rest) := by
  have hnamed : Attributes.Named .empty := by decide
  have hseparate : Attributes.Separate {} .empty := by decide
  have hnext := next?_writeStart (c := .element name .empty false) hname hnamed hseparate rest
  have hwritten : (Content.writeStart {} (.element name .empty false)).toList =
      '<' :: (name.toList ++ [] ++ ['>']) :=
    Content.toList_writeStart {} (.element name .empty false)
  rw [hwritten, List.append_nil, List.cons_append, List.append_assoc] at hnext
  exact hnext

/-- What the start tag of an element does to a builder that is ready for it. -/
theorem Ready.step_startTag
    (h : Ready quirks outer closer (.node c children siblings) base pending b)
    (hkind : c.kind = .element)
    (hbuilt : Forest.NodeBuilt outer c children siblings.head?)
    (hafter : Open.afterStart c.name quirks (pending ++ outer) = outer) (maxDepth : Nat)
    (options : WriteOptions) (raw : Bool) :
    b.step maxDepth (.startTag (startTagOf options c)) =
      if c.isLeafElement then
        .ok ((b.cleared options pending c).insert (c.asRead options raw, .nil), none)
      else if maxDepth < outer.length + 1 then
        .error (.depthExceeded (outer.length + 1) maxDepth)
      else
        .ok ((b.cleared options pending c).opened (c.asRead options raw),
          if rawIn (c.name :: outer) then some c.name else none) := by
  obtain ⟨_, hquirks⟩ := h.agrees.observe_startTag hkind (startTagOf options c)
  have hopen : (b.observe (.startTag (startTagOf options c))).openTags = pending ++ outer := by
    rw [openTags_observe, h.openTags]
  have hafter' : Open.afterStart (startTagOf options c).name
      (b.observe (.startTag (startTagOf options c))).quirks (pending ++ outer) = outer := by
    rw [hquirks]
    exact hafter
  have hself : (Open.inForeign (c.name :: outer) && c.selfClosing) = c.selfClosing := by
    cases hc : c.selfClosing with
    | false => rw [Bool.and_false]
    | true => rw [hbuilt.foreign (by simp [Content.isElement, hkind]) hc, Bool.and_true]
  change (b.observe (.startTag (startTagOf options c))).start maxDepth (startTagOf options c) = _
  rw [Content.asRead_element hkind, start_of_afterStart hopen hafter']
  simp only [startTagOf, hself]
  rfl

/-- A void or self-closing element takes a builder that is ready for it to one that is ready for its
siblings. -/
theorem Ready.leaf (h : Ready quirks outer closer (.node c children siblings) base pending b)
    (hkind : c.kind = .element) (options : WriteOptions) (c' : Content) :
    Ready quirks outer closer siblings (base.insert (c', .nil)) []
      ((b.cleared options pending c).insert (c', .nil)) := by
  obtain ⟨hdecided, hquirks⟩ := h.agrees.observe_startTag hkind (startTagOf options c)
  refine ⟨?_, ?_, fun hne => absurd rfl hne, .inl ⟨?_, ?_⟩, fun _ => ?_⟩
  · rw [openTags_insert, cleared, openTags_close, openTags_observe, h.openTags, List.drop_left]
    rfl
  · rw [List.length_nil, close, bare_insert, cleared, bare_close, bare_observe, ← bare_close,
      h.base, ← bare_insert]
  · rw [insert, decided_onChildren, cleared, decided_close, hdecided]
  · rw [insert, quirks_onChildren, cleared, quirks_close, hquirks]
  · rw [insert, decided_onChildren, cleared, decided_close, hdecided]

/-- Inside an element that was just opened the builder is ready for its children. -/
theorem Ready.opened (h : Ready quirks outer closer (.node c children siblings) base pending b)
    (hkind : c.kind = .element) (options : WriteOptions) {c' : Content} (hname : c'.name = c.name)
    (closer' : Closer) :
    Ready quirks (c.name :: outer) closer' children (base.opened c') []
      ((b.cleared options pending c).opened c') := by
  obtain ⟨hdecided, hquirks⟩ := h.agrees.observe_startTag hkind (startTagOf options c)
  have hdecided' : ((b.cleared options pending c).opened c').decided = true := by
    rw [← hdecided, cleared, Builder.opened, decided_close]
  refine ⟨?_, ?_, fun hne => absurd rfl hne, .inl ⟨hdecided', ?_⟩, fun _ => hdecided'⟩
  · rw [openTags_opened, cleared, openTags_close, openTags_observe, h.openTags, List.drop_left,
      hname]
    rfl
  · rw [List.length_nil, close, bare_opened, cleared, bare_close, bare_observe, ← bare_close, h.base,
      ← bare_opened]
  · rw [← hquirks, cleared, Builder.opened, quirks_close]

/-- An element whose children were read is a finished tree, once it is ended. -/
theorem Ready.base_close {c' : Content} {f : Forest Content} {closer' : Closer}
    (h : Ready quirks (c.name :: outer) closer' .nil ((base.opened c').push f) pending b) :
    (b.close (pending.length + 1)).bare = (base.insert (c', f)).bare := by
  rw [close_add, bare_close, h.base, ← bare_close]
  exact congrArg bare (close_open c' f base)

/-- The end tag of an element makes the builder ready for its siblings. -/
theorem Ready.ended {c' : Content} {f : Forest Content} {closer' : Closer}
    (h : Ready quirks (c.name :: outer) closer' .nil ((base.opened c').push f) pending b) :
    Ready quirks outer closer siblings (base.insert (c', f)) []
      ((b.observe (.endTag c.name)).close (pending.length + 1)) := by
  have hquirks : b.quirks = quirks := by
    rcases h.agrees with ⟨_, hquirks⟩ | ⟨_, hquirks, hpage⟩
    · exact hquirks
    · exact hquirks.trans hpage
  refine ⟨?_, ?_, fun hne => absurd rfl hne, .inl ⟨?_, ?_⟩, fun _ => ?_⟩
  · rw [openTags_close, openTags_observe, h.openTags, List.drop_append]
    simp
  · rw [List.length_nil, close, bare_close, bare_observe, ← bare_close, h.base_close]
  · rw [decided_close]
    rfl
  · rw [quirks_close, ← hquirks]
    rfl
  · rw [decided_close]
    rfl

/-- An end tag that is left out makes the builder ready for the siblings, with one more element
open. -/
theorem Ready.omitted {c' : Content} {f : Forest Content} {closer' : Closer}
    (h : Ready quirks (c.name :: outer) closer' .nil ((base.opened c').push f) pending b)
    (hclose : c.closer? options quirks outer closer siblings.head? = some closer') :
    Ready quirks outer closer siblings (base.insert (c', f)) (pending ++ [c.name]) b := by
  have hdecided : b.decided = true := h.decided (by simp)
  refine ⟨?_, ?_, fun _ => ?_, h.agrees.of_decided hdecided _, fun _ => hdecided⟩
  · rw [h.openTags, List.append_assoc, List.singleton_append]
  · rw [List.length_append, List.length_singleton, h.base_close]
  · have hreopens : closer'.reopens quirks (pending ++ [c.name] ++ outer) = true := by
      rw [List.append_assoc, List.singleton_append]
      by_cases hpending : pending = []
      · rw [hpending]
        exact Content.reopens_of_closer? hclose
      · exact h.resumes hpending
    exact resumes_of_closer? hclose hreopens

/-! ## Raw text -/

/-- The children of a raw text element are read up to its end tag. -/
theorem Ready.arrives_raw {tag : String} (h : Ready quirks (tag :: outer) closer children base [] b)
    (htag : rawIn (tag :: outer) = true) (hplain : sameIgnoringCase tag "plaintext" = false)
    (hspelled : children.Spelled options (tag :: outer)) (hraw : children.RawBelow tag)
    (hbase : base.endsInText = false) (rest : List Char) :
    ∃ b', Arrives maxDepth b (some tag)
        (children.markup options quirks (tag :: outer) closer ++ ((writeEnd tag).toList ++ rest))
        b' none ((writeEnd tag).toList ++ rest) ∧
      Ready quirks (tag :: outer) closer .nil (base.push (children.asRead options (tag :: outer)))
        [] b' := by
  have hisRaw : Tag.isRawText tag = true := by
    simp only [rawIn, List.head?_cons, Option.any_some, Bool.and_eq_true] at htag
    exact htag.2
  cases children with
  | nil =>
    refine ⟨b, ?_, ?_⟩
    · have hblank : IsRawText tag [] := by simp [IsRawText, endsRawElement]
      have hnone : Token.rawText? tag ((writeEnd tag).toList ++ rest) = none := by
        have hempty := Token.rawText_append_writeEnd hisRaw hblank rest
        rw [List.nil_append] at hempty
        rw [Token.rawText?, if_neg (by simp [hplain]), hempty]
      -- Without any raw text the end tag is read as if none had been asked for.
      have hnext : Token.next? (some tag) ((writeEnd tag).toList ++ rest) =
          Token.next? none ((writeEnd tag).toList ++ rest) := by
        unfold Token.next?
        rw [Option.bind_some, hnone]
        rfl
      rw [Forest.markup_nil, List.nil_append]
      exact .refl hnext
    · rw [Forest.asRead, push_nil]
      exact h
  | node c below after =>
    obtain ⟨hkind, htext, rfl, rfl⟩ := hraw
    have hvalue : c.value ≠ "" := by
      have := hspelled.1.spelled
      rwa [Content.Spelled, hkind] at this
    obtain ⟨first, more, hcs⟩ := List.exists_cons_of_ne_nil
      (mt String.toList_eq_nil_iff.mp hvalue)
    have hsome : Token.rawText? tag (c.value.toList ++ ((writeEnd tag).toList ++ rest)) =
        some (.text c.value, (writeEnd tag).toList ++ rest) := by
      rw [Token.rawText?, if_neg (by simp [hplain]), Token.rawText_append_writeEnd hisRaw htext, hcs]
      simp only [Token.ofText]
      rw [← hcs, String.ofList_toList]
    have hnext : Token.next? (some tag) (c.value.toList ++ ((writeEnd tag).toList ++ rest)) =
        some (.text c.value, (writeEnd tag).toList ++ rest) := by
      unfold Token.next?
      rw [Option.bind_some, hsome]
    refine ⟨b.addText c.value, ?_, ?_⟩
    · rw [Forest.markup_of_text hkind, htag, if_pos rfl, Forest.markup_nil, List.append_nil]
      exact arrives_of_step hnext rfl
    · rw [Forest.asRead, Forest.asRead, Forest.asRead, htag, Content.asRead_text hkind, if_pos rfl,
        push_node, push_nil]
      exact h.text hkind hbase rfl

/-! ## Forests -/

variable (maxDepth options quirks outer) in
/-- The markup of the forest is read back inside `outer`, from any builder that is ready for it. -/
def ReadsBack (f : Forest Content) : Prop :=
  ∀ ⦃closer : Closer⦄ ⦃ended : Bool⦄ ⦃pending : List String⦄ ⦃base b : Builder⦄ ⦃rest : List Char⦄,
    f.Nests options quirks outer closer ended → (ended = true ↔ pending ≠ []) →
    Ready quirks outer closer f base pending b →
    (f.head?.any (·.isText) = true → base.endsInText = false) →
    rest.head?.all (· == '<') = true →
    ∃ b' pending',
      Arrives maxDepth b none (f.markup options quirks outer closer ++ rest) b' none rest ∧
        Ready quirks outer closer .nil (base.push (f.asRead options outer)) pending' b'

variable (maxDepth options quirks outer) in
/-- The markup of one node in front of its siblings is read, from any builder that is ready for it;
what is then left open is an element whose end tag was left out. -/
def StepsOver (c : Content) (children siblings : Forest Content) : Prop :=
  ∀ ⦃closer : Closer⦄ ⦃ended : Bool⦄ ⦃pending : List String⦄ ⦃base b : Builder⦄ ⦃rest : List Char⦄,
    (c.isElement = true → ended = false → Open.afterStart c.name quirks outer = outer) →
    children.Nests options quirks (c.name :: outer)
      ((c.closer? options quirks outer closer siblings.head?).getD (.endTag c.name outer.length))
      false →
    (ended = true ↔ pending ≠ []) →
    Ready quirks outer closer (.node c children siblings) base pending b →
    (c.isText = true → base.endsInText = false) →
    rest.head?.all (· == '<') = true →
    ∃ b' pending',
      Arrives maxDepth b none
        ((Forest.node c children siblings).markup options quirks outer closer ++ rest)
        b' none (siblings.markup options quirks outer closer ++ rest) ∧
      Ready quirks outer closer siblings
        (base.insert (c.asRead options (rawIn outer), children.asRead options (c.name :: outer)))
        pending' b' ∧
      (c.omitsEnd options quirks outer closer siblings.head? = true ↔ pending' ≠ [])

/-- A text is read. -/
theorem stepsOver_text (hkind : c.kind = .text)
    (hbuilt : Forest.NodeBuilt outer c children siblings.head?) (hsiblings : siblings.Built outer)
    (houter : rawIn outer = false) : StepsOver maxDepth options quirks outer c children siblings := by
  intro closer ended pending base b rest _ _ _ hready htext hrest
  obtain rfl := hbuilt.childless (.inl (by simp [Content.isElement, hkind]))
  have hisText : c.isText = true := by simp [Content.isText, hkind]
  have hvalue : c.value ≠ "" := by
    have := hbuilt.spelled
    rwa [Content.Spelled, hkind] at this
  have hne : escapeChars c.value.toList ≠ [] :=
    escapeChars_ne_nil (mt String.toList_eq_nil_iff.mp hvalue)
  have hblank : isBlank (escapeText c.value) = isBlank c.value := by
    rw [isBlank, escapeText, String.toList_ofList, all_isSpace_escapeChars, isBlank]
  refine ⟨b.addText (escapeText c.value), [], ?_, ?_, ?_⟩
  · rw [Forest.markup_of_text hkind, houter, if_neg (by decide), escapeText,
      String.toList_ofList, List.append_assoc]
    exact arrives_of_isPlain maxDepth (isPlain_escapeChars _) hne
      (Forest.head?_markup hsiblings (hbuilt.apart hisText) hrest) b
  · rw [Forest.asRead, houter, Content.asRead_text hkind, if_neg (by decide)]
    exact hready.text hkind (htext hisText) hblank
  · simp [Content.omitsEnd, Content.isElement, hkind]

/-- A comment or declaration is read. -/
theorem stepsOver_declaration (hc : c.isDeclaration = true)
    (hbuilt : Forest.NodeBuilt outer c children siblings.head?) :
    StepsOver maxDepth options quirks outer c children siblings := by
  intro closer ended pending base b rest _ _ _ hready _ _
  have hnot : c.isElement = false := by
    unfold Content.isDeclaration at hc
    unfold Content.isElement
    split at hc <;> simp_all
  obtain rfl := hbuilt.childless (.inl hnot)
  refine ⟨_, [], ?_, hready.declaration hc (c.asRead options (rawIn outer), .nil), ?_⟩
  · rw [Forest.markup_of_isDeclaration hc, List.append_assoc]
    exact arrives_writeLeaf maxDepth options (rawIn outer) hc hbuilt.spelled _ b
  · simp [Content.omitsEnd, hnot]

/-- An element that cannot have children is read. -/
theorem stepsOver_leafElement (hkind : c.kind = .element) (hleaf : c.isLeafElement = true)
    (hspelled : Forest.NodeSpelled options outer c children siblings.head?) :
    StepsOver maxDepth options quirks outer c children siblings := by
  intro closer ended pending base b rest hstart _ hended hready _ _
  obtain rfl := hspelled.childless (.inr hleaf)
  have helement : c.isElement = true := by simp [Content.isElement, hkind]
  have hafter := hready.afterStart hended (hstart helement)
  obtain ⟨hname, has⟩ : Tag.IsName c.name ∧ c.attributes.Named := by
    have := hspelled.spelled
    rwa [Content.Spelled, hkind] at this
  have hstep :=
    hready.step_startTag hkind hspelled.toNodeBuilt hafter maxDepth options (rawIn outer)
  rw [if_pos hleaf] at hstep
  refine ⟨_, [], ?_, hready.leaf hkind options (c.asRead options (rawIn outer)), ?_⟩
  · rw [Forest.markup_of_leafElement hkind hleaf rfl, List.append_assoc]
    exact arrives_of_step (next?_writeStart hname has (hspelled.separate helement) _) hstep
  · simp [Content.omitsEnd, hleaf]

/-- The children of an element that was just opened are read, raw text or not, up to what follows
them. -/
theorem Ready.arrives_children {closer' : Closer}
    (h : Ready quirks (c.name :: outer) closer' children base [] b) (hbase : base.endsInText = false)
    (helement : c.isElement = true)
    (hspelled : Forest.NodeSpelled options outer c children siblings.head?)
    (hbelow : children.Spelled options (c.name :: outer))
    (hnests : children.Nests options quirks (c.name :: outer) closer' false)
    (hchildren : rawIn (c.name :: outer) = false →
      ReadsBack maxDepth options quirks (c.name :: outer) children)
    (after : List Char) (hafter : after.head?.all (· == '<') = true)
    (hend : rawIn (c.name :: outer) = true → ∃ rest, after = (writeEnd c.name).toList ++ rest) :
    ∃ b' pending',
      Arrives maxDepth b (if rawIn (c.name :: outer) then some c.name else none)
        (children.markup options quirks (c.name :: outer) closer' ++ after) b' none after ∧
      Ready quirks (c.name :: outer) closer' .nil
        (base.push (children.asRead options (c.name :: outer))) pending' b' := by
  cases hraw : rawIn (c.name :: outer) with
  | false => exact hchildren hraw hnests (by simp) h (fun _ => hbase) hafter
  | true =>
    obtain ⟨rest, rfl⟩ := hend hraw
    obtain ⟨hplain, hrawBelow⟩ := hspelled.raw helement hraw
    obtain ⟨b', hrun, hdone⟩ := h.arrives_raw hraw hplain hbelow hrawBelow hbase rest
    exact ⟨b', [], hrun, hdone⟩

/-- The end tag of an element is read where it was written. -/
theorem Ready.arrives_writeEnd {c' : Content} {f : Forest Content}
    (h : Ready quirks (c.name :: outer) (.endTag c.name outer.length) .nil
      ((base.opened c').push f) pending b)
    (hname : Tag.IsName c.name) (hvoid : Tag.isVoid c.name = false) (rest : List Char) :
    Arrives maxDepth b none ((writeEnd c.name).toList ++ rest)
      ((b.observe (.endTag c.name)).close (pending.length + 1)) none rest := by
  have hafter : Open.afterEnd c.name (pending ++ c.name :: outer) = outer := by
    by_cases hpending : pending = []
    · rw [hpending]
      exact Open.afterEnd_self hvoid outer
    · have hreopens : Closer.reopens (.endTag c.name outer.length) quirks
          (pending ++ c.name :: outer) = true := h.resumes hpending
      rw [List.append_cons] at hreopens ⊢
      exact Closer.afterEnd_of_reopens hreopens
  refine arrives_of_step (Token.next?_writeEnd hname rest) ?_
  have hopen : (b.observe (.endTag c.name)).openTags = pending ++ c.name :: outer := by
    rw [openTags_observe, h.openTags]
  change ((b.observe (.endTag c.name)).finish maxDepth c.name).map (·, none) = _
  rw [finish_of_afterEnd hopen hvoid hafter]
  rfl

/-- **An element is read if what it holds is.** -/
theorem stepsOver_element (hkind : c.kind = .element) (hleaf : c.isLeafElement = false)
    (hspelled : Forest.NodeSpelled options outer c children siblings.head?)
    (hbelow : children.Spelled options (c.name :: outer)) (hsiblings : siblings.Built outer)
    (hdepth : outer.length + 1 ≤ maxDepth)
    (hchildren : rawIn (c.name :: outer) = false →
      ReadsBack maxDepth options quirks (c.name :: outer) children) :
    StepsOver maxDepth options quirks outer c children siblings := by
  intro closer ended pending base b rest hstart hnests hended hready _ hrest
  have helement : c.isElement = true := by simp [Content.isElement, hkind]
  have hvoid : Tag.isVoid c.name = false := (Bool.or_eq_false_iff.mp hleaf).2
  obtain ⟨hname, has⟩ : Tag.IsName c.name ∧ c.attributes.Named := by
    have := hspelled.spelled
    rwa [Content.Spelled, hkind] at this
  have hafter := hready.afterStart hended (hstart helement)
  have hstep :=
    hready.step_startTag hkind hspelled.toNodeBuilt hafter maxDepth options (rawIn outer)
  rw [if_neg (by simp [hleaf]), if_neg (by omega)] at hstep
  have hread : (c.asRead options (rawIn outer)).name = c.name := by
    rw [Content.asRead_element hkind]
    rfl
  have hopened := hready.opened hkind options hread
    ((c.closer? options quirks outer closer siblings.head?).getD (.endTag c.name outer.length))
  rw [Forest.markup_of_element hkind hleaf]
  simp only [List.append_assoc]
  -- The start tag is read in the same way whatever follows.
  have htag (rest : List Char) :=
    arrives_of_step (next?_writeStart hname has (hspelled.separate helement) rest) hstep
  cases hclose : c.closer? options quirks outer closer siblings.head? with
  | none =>
    rw [hclose] at hopened hnests
    obtain ⟨b₂, pending₂, hrun₂, hready₂⟩ := hopened.arrives_children (endsInText_opened _ _)
      helement hspelled hbelow hnests hchildren
      ((writeEnd c.name).toList ++ (siblings.markup options quirks outer closer ++ rest))
      (by simp [writeEnd]) (fun _ => ⟨_, rfl⟩)
    refine ⟨_, [], ?_, hready₂.ended, ?_⟩
    · exact ((htag _).trans hrun₂).trans (hready₂.arrives_writeEnd hname hvoid _)
    · simp [Content.omitsEnd, hclose]
  | some closer' =>
    rw [hclose] at hopened hnests
    -- The element stays open until what follows closes it.
    obtain ⟨b₂, pending₂, hrun₂, hready₂⟩ := hopened.arrives_children (endsInText_opened _ _)
      helement hspelled hbelow hnests hchildren
      (siblings.markup options quirks outer closer ++ rest)
      (Forest.head?_markup hsiblings (Content.not_isText_of_closer? hclose) hrest)
      (fun hraw => absurd hraw (by rw [Content.rawIn_of_closer? hclose]; decide))
    exact ⟨b₂, pending₂ ++ [c.name], (htag _).trans hrun₂, hready₂.omitted hclose,
      by simp [Content.omitsEnd, helement, hleaf, hclose]⟩

/-- Every node that is spelled well is stepped over, if its children are read back. -/
theorem stepsOver (hspelled : Forest.NodeSpelled options outer c children siblings.head?)
    (hbelow : children.Spelled options (c.name :: outer)) (hsiblings : siblings.Built outer)
    (hdepth : c.isElement = true → c.isLeafElement = false → outer.length + 1 ≤ maxDepth)
    (houter : rawIn outer = false)
    (hchildren : c.isElement = true → c.isLeafElement = false → rawIn (c.name :: outer) = false →
      ReadsBack maxDepth options quirks (c.name :: outer) children) :
    StepsOver maxDepth options quirks outer c children siblings := by
  cases hkind : c.kind with
  | element =>
    have helement : c.isElement = true := by simp [Content.isElement, hkind]
    cases hleaf : c.isLeafElement with
    | true => exact stepsOver_leafElement hkind hleaf hspelled
    | false =>
      exact stepsOver_element hkind hleaf hspelled hbelow hsiblings (hdepth helement hleaf)
        (hchildren helement hleaf)
  | text => exact stepsOver_text hkind hspelled.toNodeBuilt hsiblings houter
  | document =>
    have := hspelled.spelled
    simp [Content.Spelled, Content.SpelledAs, hkind] at this
  | comment | cdata | instruction | doctype =>
    exact stepsOver_declaration (by simp [Content.isDeclaration, hkind]) hspelled.toNodeBuilt

/-- A forest whose first node is stepped over and whose other trees are read back is read back. -/
theorem StepsOver.readsBack (h : StepsOver maxDepth options quirks outer c children siblings)
    (hbuilt : Forest.NodeBuilt outer c children siblings.head?)
    (hsiblings : ReadsBack maxDepth options quirks outer siblings) :
    ReadsBack maxDepth options quirks outer (.node c children siblings) := by
  intro closer ended pending base b rest hnests hended hready htext hrest
  obtain ⟨hstart, hbelow, hbeside⟩ := hnests
  obtain ⟨b₁, pending₁, hrun₁, hready₁, hended₁⟩ := h hstart hbelow hended hready htext hrest
  obtain ⟨b', pending', hrun, hdone⟩ := hsiblings hbeside hended₁ hready₁ (fun hnext => by
    rw [endsInText_insert, Content.isText_asRead]
    cases hc : c.isText with
    | false => rfl
    | true => rw [hbuilt.apart hc] at hnext; cases hnext) hrest
  refine ⟨b', pending', hrun₁.trans hrun, ?_⟩
  rw [Forest.asRead, push_node]
  exact hdone

variable (maxDepth options quirks) in
/-- **The markup of a forest is read back**, inside any elements whose text is not raw. -/
theorem readsBack {f : Forest Content} (hspelled : f.Spelled options outer)
    (hheight : outer.length + f.height ≤ maxDepth) (houter : rawIn outer = false) :
    ReadsBack maxDepth options quirks outer f := by
  induction f generalizing outer with
  | nil =>
    intro closer ended pending base b rest _ _ hready _ _
    refine ⟨b, pending, .refl rfl, ?_⟩
    rw [Forest.asRead, push_nil]
    exact hready
  | node c children siblings ihc ihs =>
    obtain ⟨hnode, hbelow, hbeside⟩ := hspelled
    have hopens (helement : c.isElement = true) (hleaf : c.isLeafElement = false) :
        outer.length + (children.height + 1) ≤ maxDepth := by
      refine Nat.le_trans (Nat.add_le_add_left ?_ _) hheight
      rw [Forest.height, if_pos (by simp [helement, hleaf])]
      exact Nat.le_max_left _ _
    have hsteps : StepsOver maxDepth options quirks outer c children siblings := by
      refine stepsOver hnode hbelow hbeside.built (fun helement hleaf => ?_) houter
        fun helement hleaf hraw => ihc hbelow ?_ hraw
      · have := hopens helement hleaf
        omega
      · have := hopens helement hleaf
        simp only [List.length_cons]
        omega
    refine hsteps.readsBack hnode.toNodeBuilt (ihs hbeside (Nat.le_trans ?_ hheight) houter)
    exact Nat.add_le_add_left (Nat.le_max_right _ _) _

end

/-- The empty builder is ready for any page. -/
theorem ready_start (f : Forest Content) :
    Ready (Doctype.pageQuirks f.roots) [] .endOfPage f {} [] {} :=
  ⟨rfl, rfl, fun hne => absurd rfl hne, .inr ⟨rfl, rfl, rfl⟩, fun hne => absurd rfl hne⟩

/-- At the end of a page whose trees were read, all that is left open is ended. -/
theorem Ready.forest_eq {quirks : Bool} {closer : Closer} {f : Forest Content}
    {pending : List String} {b : Builder}
    (h : Ready quirks [] closer .nil (push f {}) pending b) : b.forest = f := by
  have hlength : b.frames.length = pending.length := by
    rw [length_frames, h.openTags, List.append_nil]
  have hdone : (b.close pending.length).done = f.onto [] := congrArg Builder.done h.base
  rw [forest, hlength, hdone, Forest.prependReversed_onto, Forest.append_nil]
  rfl

end Builder

/-- **A page is read back** from the markup of its trees, if they can be written and nest. -/
theorem Forest.parse_markup {maxDepth : Nat} {options : WriteOptions} {f : Forest Content}
    (hspelled : f.Spelled options [])
    (hnests : f.Nests options (Doctype.pageQuirks f.roots) [] .endOfPage false)
    (hheight : f.height ≤ maxDepth) :
    Forest.parse maxDepth
        (String.ofList (f.markup options (Doctype.pageQuirks f.roots) [] .endOfPage)) =
      .ok (f.asRead options []) := by
  have hreads := Builder.readsBack maxDepth options (Doctype.pageQuirks f.roots) hspelled
    (by rw [List.length_nil, Nat.zero_add]; exact hheight) rfl
  obtain ⟨b, pending, hrun, hdone⟩ := hreads hnests (by simp) (Builder.ready_start f)
    (fun _ => rfl) (rfl : ([] : List Char).head?.all (· == '<') = true)
  rw [Forest.parse, String.toList_ofList, ← List.append_nil (markup _ _ _ _ f), hrun.run,
    Builder.run_nil]
  exact congrArg Except.ok hdone.forest_eq

end HtmlMinify
