import HtmlMinify.Proofs.Drafts
import HtmlMinify.Proofs.Steps

/-!
# The tokens of a run

`Builder.Takes` says what tokens can do, whichever they are. Here a token is kept together with what
it does: `Builder.Effect` has one case for each thing that a token of some kind can do, and says which
raw text is asked for next. The log of a run lists its tokens, each with the elements that were open
when it came.

## Main statements

* `Builder.effect_of_step`: a token does nothing but what `Effect` says of it.
* `Builder.reads_of_run`: a run that succeeds takes the tokens of its log, one after the other.
-/

namespace HtmlMinify

open Text

/-- The node of a token that is neither a tag nor a text. -/
def Token.leaf? : Token → Option Content
  | .comment value => some (.leaf .comment value)
  | .doctype value => some (.leaf .doctype value)
  | .cdata value => some (.leaf .cdata value)
  | .instruction value => some (.leaf .instruction value)
  | .startTag _ | .endTag _ | .text _ => none

namespace Open

/-- Start tags that end nothing leave all elements open. -/
theorem afterStart_of_impliedEnds_nil {name : String} {quirks : Bool}
    (h : impliedEnds name quirks = []) (tags : List String) : afterStart name quirks tags = tags := by
  rw [afterStart, h]
  split <;> rfl

/-- The start tag of `br` ends nothing. -/
theorem afterStart_br (quirks : Bool) (tags : List String) :
    afterStart "br" quirks tags = tags :=
  afterStart_of_impliedEnds_nil (by cases quirks <;> rfl) tags

/-- An end tag that leaves as many elements open as there were ends none. -/
theorem afterEnd_eq_self {name : String} {tags : List String}
    (h : ¬ (afterEnd name tags).length < tags.length) : afterEnd name tags = tags :=
  (afterEnd_suffix name tags).eq_of_length_le (Nat.le_of_not_lt h)

end Open

namespace Builder

/-- What a token makes of a builder, and the tag whose raw text it asks for. -/
inductive Effect (b : Builder) : Token → Builder → Option String → Prop where
  /-- A text is added. -/
  | text (value : String) : Effect b (.text value) (b.addText value) none
  /-- A comment or declaration is added. -/
  | leaf {token : Token} {c : Content} (hleaf : token.leaf? = some c) :
    Effect b token ((b.observe token).insert (c, .nil)) none
  /-- An element that takes no content is added, after others were ended. -/
  | leafTag (tag : StartTag) (n : Nat) (selfClosing : Bool)
    (hleaf : (Content.element tag.name tag.attributes selfClosing).isLeafElement = true)
    (hleft : Open.afterStart tag.name b.quirks b.openTags = b.openTags.drop n)
    (hcount : n ≤ b.openTags.length) :
    Effect b (.startTag tag)
      (((b.observe (.startTag tag)).close n).insert
        (.element tag.name tag.attributes selfClosing, .nil)) none
  /-- An element is opened, after others were ended. -/
  | openTag (tag : StartTag) (n : Nat) (selfClosing : Bool)
    (hleaf : (Content.element tag.name tag.attributes selfClosing).isLeafElement = false)
    (hleft : Open.afterStart tag.name b.quirks b.openTags = b.openTags.drop n)
    (hcount : n ≤ b.openTags.length) :
    Effect b (.startTag tag)
      (((b.observe (.startTag tag)).close n).opened (.element tag.name tag.attributes selfClosing))
      (if rawIn (tag.name :: b.openTags.drop n) then some tag.name else none)
  /-- The end tag of `br` stands for its start tag. -/
  | lineBreak (name : String) (hname : sameIgnoringCase name "br" = true)
    (hhtml : Open.inForeign b.openTags = false) :
    Effect b (.endTag name)
      ((b.observe (.endTag name)).insert (.element "br" .empty false, .nil)) none
  /-- Elements are ended. -/
  | endTag (name : String) (n : Nat)
    (hname : (sameIgnoringCase name "br" && !Open.inForeign b.openTags) = false)
    (hends : Open.afterEnd name b.openTags ≠ b.openTags)
    (hleft : Open.afterEnd name b.openTags = b.openTags.drop n) :
    Effect b (.endTag name) ((b.observe (.endTag name)).close n) none
  /-- The end tag of a paragraph that is not open leaves an empty one. -/
  | paragraph (name : String) (hname : sameIgnoringCase name "p" = true)
    (hhtml : Open.inForeign b.openTags = false)
    (hends : Open.afterEnd name b.openTags = b.openTags) :
    Effect b (.endTag name) ((b.observe (.endTag name)).insert (.element "p" .empty false, .nil)) none
  /-- Any other end tag that ends nothing is dropped. -/
  | dropped (name : String)
    (hbr : (sameIgnoringCase name "br" && !Open.inForeign b.openTags) = false)
    (hp : (sameIgnoringCase name "p" && !Open.inForeign b.openTags) = false)
    (hends : Open.afterEnd name b.openTags = b.openTags) :
    Effect b (.endTag name) (b.observe (.endTag name)) none

/-- A line break is inserted wherever it is. -/
theorem start_br (maxDepth : Nat) (b : Builder) :
    b.start maxDepth ⟨"br", .empty, false⟩ =
      .ok (b.insert (.element "br" .empty false, .nil), none) := by
  have hopen : b.openTags = [] ++ b.openTags := rfl
  have hleaf : (Content.element "br" .empty false).isLeafElement = true := by decide
  have hstart := @start_of_afterStart b [] b.openTags hopen ⟨"br", .empty, false⟩
    (Open.afterStart_br b.quirks b.openTags) maxDepth
  simp only [Bool.and_false, hleaf, if_true] at hstart
  exact hstart

/-- What a start tag does is one of the effects of its token. -/
theorem effect_of_start {maxDepth : Nat} {b b' : Builder} {tag : StartTag} {raw : Option String}
    (h : (b.observe (.startTag tag)).start maxDepth tag = .ok (b', raw)) :
    b.Effect (.startTag tag) b' raw := by
  obtain ⟨pending, hopen⟩ := Open.afterStart_suffix tag.name b.quirks b.openTags
  have hdrop : Open.afterStart tag.name b.quirks b.openTags = b.openTags.drop pending.length := by
    nth_rewrite 2 [← hopen]
    rw [List.drop_left]
  have hcount : pending.length ≤ b.openTags.length := by
    rw [← hopen, List.length_append]
    exact Nat.le_add_right _ _
  rw [@start_of_afterStart (b.observe (.startTag tag)) _ _ hopen.symm _
    (congrArg (Open.afterStart tag.name b.quirks) hopen), hdrop] at h
  simp only at h
  split at h
  · next hleaf =>
    cases h
    exact .leafTag tag _ _ hleaf hdrop hcount
  · next hleaf =>
    split at h
    · cases h
    · cases h
      exact .openTag tag _ _ (by simpa using hleaf) hdrop hcount

/-- What an end tag does is one of the effects of its token. -/
theorem effect_of_finish {maxDepth : Nat} {b b' : Builder} {name : String}
    (h : (b.observe (.endTag name)).finish maxDepth name = .ok b') :
    b.Effect (.endTag name) b' none := by
  simp only [finish, openTags_observe] at h
  split at h
  · next hbr =>
    obtain ⟨hname, hhtml⟩ := Bool.and_eq_true_iff.mp hbr
    rw [start_br] at h
    cases h
    exact .lineBreak name hname (by simpa using hhtml)
  · next hbr =>
    rw [Bool.not_eq_true] at hbr
    split at h
    · next hless =>
      cases h
      have hends : Open.afterEnd name b.openTags ≠ b.openTags := by
        intro heq
        rw [heq] at hless
        exact Nat.lt_irrefl _ hless
      obtain ⟨ended, hended⟩ := Open.afterEnd_suffix name b.openTags
      have hopen : (b.observe (.endTag name)).openTags =
          ended ++ Open.afterEnd name b.openTags := by rw [openTags_observe, hended]
      have hleft : Open.afterEnd name b.openTags = b.openTags.drop ended.length := by
        nth_rewrite 2 [← hended]
        rw [List.drop_left]
      rw [closeTo_of_openTags hopen]
      exact .endTag name ended.length hbr hends hleft
    · next hnotLess =>
      have hends := Open.afterEnd_eq_self hnotLess
      split at h
      · next hp =>
        cases h
        obtain ⟨hname, hhtml⟩ := Bool.and_eq_true_iff.mp hp
        exact .paragraph name hname (by simpa using hhtml) hends
      · next hp =>
        cases h
        exact .dropped name hbr (by simpa using hp) hends

/-- **What each token does to a builder.** -/
theorem effect_of_step {maxDepth : Nat} {b b' : Builder} {token : Token} {raw : Option String}
    (h : b.step maxDepth token = .ok (b', raw)) : b.Effect token b' raw := by
  cases token with
  | text value =>
    cases h
    exact .text value
  | comment value | doctype value | cdata value | instruction value =>
    cases h
    exact .leaf rfl
  | startTag tag => exact effect_of_start h
  | endTag name =>
    have hmap : ((b.observe (.endTag name)).finish maxDepth name).map (·, none) =
        .ok (b', raw) := h
    cases hfinish : (b.observe (.endTag name)).finish maxDepth name with
    | error e =>
      rw [hfinish] at hmap
      cases hmap
    | ok after =>
      rw [hfinish] at hmap
      cases hmap
      exact effect_of_finish hfinish

/-! ## Runs -/

/-- A token, and the tags that are open when it comes, innermost first. -/
structure Event where
  token : Token
  outer : List String
deriving Repr, DecidableEq

/-- The tokens of the input in the order in which they are read, the raw text of `raw` first, if asked
for. Reading stops at a token that is refused. -/
def log (maxDepth : Nat) (b : Builder) (raw : Option String) (input : List Char) : List Event :=
  match _h : Token.next? raw input with
  | none => []
  | some (token, rest) =>
    ⟨token, b.openTags⟩ ::
      match b.step maxDepth token with
      | .error _ => []
      | .ok (b, raw) => log maxDepth b raw rest
termination_by input.length
decreasing_by exact Token.length_next?_lt _h

section Stepwise

variable {maxDepth : Nat} {b b' final : Builder} {raw raw' : Option String} {input : List Char}
  {token : Token} {events : List Event}

/-- Nothing is read where no token is left. -/
theorem log_of_next?_none (h : Token.next? raw input = none) : log maxDepth b raw input = [] := by
  rw [log]
  split
  · rfl
  · next hsome =>
    rw [h] at hsome
    cases hsome

/-- A token that is refused is the last of the log. -/
theorem log_of_error {rest : List Char} {e : DocumentError}
    (hnext : Token.next? raw input = some (token, rest)) (hstep : b.step maxDepth token = .error e) :
    log maxDepth b raw input = [⟨token, b.openTags⟩] := by
  rw [log]
  split
  · next hnone =>
    rw [hnext] at hnone
    cases hnone
  · next hsome =>
    rw [hnext] at hsome
    cases hsome
    rw [hstep]

/-- After a token that is taken the log goes on. -/
theorem log_of_step {rest : List Char} (hnext : Token.next? raw input = some (token, rest))
    (hstep : b.step maxDepth token = .ok (b', raw')) :
    log maxDepth b raw input = ⟨token, b.openTags⟩ :: log maxDepth b' raw' rest := by
  rw [log]
  split
  · next hnone =>
    rw [hnext] at hnone
    cases hnone
  · next hsome =>
    rw [hnext] at hsome
    cases hsome
    rw [hstep]

/-- A run and its log are known from the first token and what is read after it. -/
theorem run_log_of_step (rest : List Char) (hnext : Token.next? raw input = some (token, rest))
    (hstep : b.step maxDepth token = .ok (b', raw'))
    (hrest : run maxDepth b' raw' rest = .ok final ∧ log maxDepth b' raw' rest = events) :
    run maxDepth b raw input = .ok final ∧
      log maxDepth b raw input = ⟨token, b.openTags⟩ :: events := by
  refine ⟨(run_of_step hnext hstep).trans hrest.1, ?_⟩
  rw [log_of_step hnext hstep, hrest.2]

/-- Nothing is read where no input is left. -/
theorem run_log_nil : run maxDepth b none [] = .ok b ∧ log maxDepth b none [] = [] :=
  ⟨run_nil maxDepth b, log_of_next?_none rfl⟩

end Stepwise

/-- Reading on from `b` takes the tokens of the events, and ends with the last builder. -/
inductive Reads : Builder → Option String → List Char → List Event → Builder → Prop where
  | nil {b : Builder} {raw : Option String} {input : List Char}
    (hnext : Token.next? raw input = none) : Reads b raw input [] b
  | cons {b b' final : Builder} {raw raw' : Option String} {input rest : List Char} {token : Token}
    {events : List Event} (hnext : Token.next? raw input = some (token, rest))
    (heffect : b.Effect token b' raw') (hreads : Reads b' raw' rest events final) :
    Reads b raw input (⟨token, b.openTags⟩ :: events) final

/-- **A run that succeeds takes the tokens of its log.** -/
theorem reads_of_run {maxDepth : Nat} {b final : Builder} {raw : Option String}
    {input : List Char} (h : run maxDepth b raw input = .ok final) :
    Reads b raw input (log maxDepth b raw input) final := by
  fun_induction run maxDepth b raw input with
  | case1 b raw input hnext =>
    cases h
    rw [log_of_next?_none hnext]
    exact .nil hnext
  | case2 => cases h
  | case3 b raw input token rest hnext b' raw' hstep ih =>
    rw [log_of_step hnext hstep]
    exact .cons hnext (effect_of_step hstep) (ih h)

end Builder

namespace Draft

/-- The tokens of the input in the order in which the draft takes them, the raw text of `raw` first, if
asked for. Reading stops at a token that is refused. -/
def log (maxDepth : Nat) (d : Draft) (raw : Option String) (input : List Char) :
    List Builder.Event :=
  match _h : Token.next? raw input with
  | none => []
  | some (token, rest) =>
    ⟨token, d.openTags⟩ ::
      match d.step maxDepth token with
      | .error _ => []
      | .ok (d, raw) => log maxDepth d raw rest
termination_by input.length
decreasing_by exact Token.length_next?_lt _h

/-- A draft takes the tokens that the builder of its tree takes. -/
theorem Shows.log_eq {d : Draft} {b : Builder} (h : d.Shows b) (maxDepth : Nat)
    (raw : Option String) (input : List Char) :
    d.log maxDepth raw input = b.log maxDepth raw input := by
  fun_induction Draft.log maxDepth d raw input generalizing b with
  | case1 d raw input hnext => rw [Builder.log_of_next?_none hnext]
  | case2 d raw input token rest hnext ih =>
    have hagree := h.step maxDepth token
    rw [h.tags_eq]
    cases hstep : d.step maxDepth token with
    | error e =>
      rw [hstep] at hagree
      rw [Builder.log_of_error hnext hagree.eq_error]
    | ok taken =>
      rw [hstep] at hagree
      obtain ⟨⟨b', -⟩, hstep', hshows, rfl⟩ := hagree.exists_ok
      rw [Builder.log_of_step hnext hstep', ← ih _ _ hshows]

end Draft

/-- The tokens of a page, each with the tags that are open when it comes. -/
def Document.log (maxDepth : Nat) (page : String) : List Builder.Event :=
  Draft.log maxDepth {} none page.toList

/-- The tokens of a page, as a builder takes them. -/
theorem Document.log_eq (maxDepth : Nat) (page : String) :
    Document.log maxDepth page = Builder.log maxDepth {} none page.toList :=
  Draft.Shows.new.log_eq maxDepth none page.toList

/-- A forest that is read is what the tokens of its log make of an empty page. -/
theorem Forest.exists_reads_of_parse {maxDepth : Nat} {page : String} {f : Forest Content}
    (h : Forest.parse maxDepth page = .ok f) :
    ∃ b, Builder.run maxDepth {} none page.toList = .ok b ∧
      Builder.Reads {} none page.toList (Document.log maxDepth page) b ∧ f = b.forest := by
  rw [Forest.parse] at h
  rw [Document.log_eq]
  cases hrun : Builder.run maxDepth {} none page.toList with
  | error e =>
    rw [hrun] at h
    cases h
  | ok b =>
    rw [hrun] at h
    cases h
    exact ⟨b, rfl, Builder.reads_of_run hrun, rfl⟩

namespace Document

/-- A page whose tokens are all taken is parsed. -/
theorem parse_of_run {maxDepth : Nat} {page : String} {b : Builder}
    (h : Builder.run maxDepth {} none page.toList = .ok b) :
    Document.parse maxDepth page = .ok (.ofForest b.forest) := by
  rw [parse_eq_map, Forest.parse, h]
  rfl

theorem parse_eq_ofForest {maxDepth : Nat} {page : String} {b : Builder} {f : Forest Content}
    (h : Builder.run maxDepth {} none page.toList = .ok b) (hforest : b.forest = f) :
    Document.parse maxDepth page = .ok (.ofForest f) := by
  rw [← hforest]
  exact parse_of_run h

/-- A page that is read is what the tokens of its log make of an empty one. -/
theorem exists_reads_of_parse {maxDepth : Nat} {page : String} {doc : Document}
    (h : Document.parse maxDepth page = .ok doc) :
    ∃ b, Builder.run maxDepth {} none page.toList = .ok b ∧
      Builder.Reads {} none page.toList (Document.log maxDepth page) b ∧
      doc = .ofForest b.forest := by
  rw [parse_eq_map] at h
  cases hparse : Forest.parse maxDepth page with
  | error e =>
    rw [hparse] at h
    cases h
  | ok f =>
    rw [hparse] at h
    cases h
    obtain ⟨b, hrun, hreads, rfl⟩ := Forest.exists_reads_of_parse hparse
    exact ⟨b, hrun, hreads, rfl⟩

end Document

end HtmlMinify
