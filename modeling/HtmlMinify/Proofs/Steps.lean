import HtmlMinify.Proofs.Builder
import HtmlMinify.Proofs.Markup
import HtmlMinify.Proofs.Tokens
import Mathlib.Logic.Relation

/-!
# What a token does to a builder

`Builder.Takes` says once what a token can do: a text is added, elements are ended, and then perhaps
a finished node is added or an element is opened. A run is a sequence of these, so whatever all of
them preserve is preserved by a run. `Builder.Arrives` speaks of a part of a run.

## Main statements

* `Builder.start_of_afterStart`, `Builder.finish_of_afterEnd`: start and end tags.
* `Builder.takes_of_step`: a token does nothing but what `Takes` allows.
* `Builder.reaches_of_run`: so does a run.
-/

namespace HtmlMinify

open Text

namespace Builder

/-! ## Tags -/

/-- The builder with one more element open. -/
def opened (c : Content) (b : Builder) : Builder :=
  { b with frames := { content := c } :: b.frames }

@[simp]
theorem openTags_opened (c : Content) (b : Builder) :
    (b.opened c).openTags = c.name :: b.openTags := rfl

theorem bare_opened (c : Content) (b : Builder) : (b.opened c).bare = b.bare.opened c := rfl

theorem endsInText_opened (c : Content) (b : Builder) : (b.opened c).endsInText = false := rfl

/-- A start tag that ends the elements `pending` comes inside `outer`. -/
theorem start_of_afterStart {b : Builder} {pending outer : List String}
    (hopen : b.openTags = pending ++ outer) {tag : StartTag}
    (hafter : Open.afterStart tag.name b.quirks (pending ++ outer) = outer) (maxDepth : Nat) :
    b.start maxDepth tag =
      let foreign := Open.inForeign (tag.name :: outer)
      let c := Content.element tag.name tag.attributes (foreign && tag.selfClosing)
      if c.isLeafElement then .ok ((b.close pending.length).insert (c, .nil), none)
      else if maxDepth < outer.length + 1 then
        .error (.depthExceeded (outer.length + 1) maxDepth)
      else
        .ok ((b.close pending.length).opened c,
          if rawIn (tag.name :: outer) then some tag.name else none) := by
  have hforeign : (Tag.isForeignRoot tag.name || Open.inForeign (pending ++ outer)) =
      Open.inForeign (tag.name :: outer) := by
    cases pending with
    | nil => rfl
    | cons first others =>
      have hne : Open.afterStart tag.name b.quirks (first :: others ++ outer) ≠
          first :: others ++ outer := by
        rw [hafter]
        intro heq
        have := congrArg List.length heq
        simp only [List.cons_append, List.length_cons, List.length_append] at this
        omega
      obtain ⟨hroot, hin⟩ := Open.not_foreign_of_afterStart hne
      rw [Open.inForeign_append] at hin
      rw [Open.inForeign_cons, hroot, Open.inForeign_append, hin, (Bool.or_eq_false_iff.mp hin).2]
  have hlength : (b.close pending.length).frames.length = outer.length := by
    rw [length_frames, openTags_close, hopen, List.drop_left]
  unfold start
  rw [hopen, hforeign, hafter, closeTo_of_openTags hopen]
  simp only [List.length_cons, hlength]
  rfl

/-- The end tag of an element ends it and the elements `pending` in it. -/
theorem finish_of_afterEnd {b : Builder} {pending outer : List String} {name : String}
    (hopen : b.openTags = pending ++ name :: outer) (hvoid : Tag.isVoid name = false)
    (hafter : Open.afterEnd name (pending ++ name :: outer) = outer) (maxDepth : Nat) :
    b.finish maxDepth name = .ok (b.close (pending.length + 1)) := by
  have hbr : sameIgnoringCase name "br" = false := by
    rw [Bool.eq_false_iff]
    intro heq
    have hlower : lower name = "br" := by simpa [sameIgnoringCase, lower] using heq
    rw [Tag.isVoid, inTable, hlower] at hvoid
    exact absurd hvoid (by decide)
  have hopen' : b.openTags = (pending ++ [name]) ++ outer := by simpa using hopen
  have hless : outer.length < (pending ++ name :: outer).length := by
    simp only [List.length_append, List.length_cons]
    omega
  unfold finish
  simp only [hopen, hafter, hbr, Bool.false_and, Bool.false_eq_true, if_false, if_pos hless]
  rw [closeTo_of_openTags hopen', List.length_append, List.length_singleton]

/-- The letter case of an end tag does not count. -/
theorem finish_congr {name name' : String} (h : lower name = lower name') (maxDepth : Nat)
    (b : Builder) : b.finish maxDepth name = b.finish maxDepth name' := by
  unfold finish
  rw [sameIgnoringCase, sameIgnoringCase, h, Open.afterEnd_congr h]
  rfl

/-! ## Any token -/

/-- What a token that is taken can make of a builder. -/
inductive Takes (b : Builder) : Builder → Prop where
  /-- A text. -/
  | text (value : String) (hvalue : value ≠ "") : Takes b (b.addText value)
  /-- An end tag, which may end nothing. -/
  | close (token : Token) (n : Nat) : Takes b ((b.observe token).close n)
  /-- A node without children, perhaps after others were ended. -/
  | insert (token : Token) (n : Nat) (c : Content) (htext : c.isText = false)
    (hbuilt : Forest.NodeBuilt (b.openTags.drop n) c .nil none) :
    Takes b (((b.observe token).close n).insert (c, .nil))
  /-- An element that stays open, perhaps after others were ended. -/
  | opened (token : Token) (n : Nat) (c : Content) (helement : c.isElement = true)
    (hleaf : c.isLeafElement = false) (hspelled : c.Spelled) :
    Takes b (((b.observe token).close n).opened c)

/-- A node that can be written, and closes itself only in foreign content, can stand without
children. -/
theorem nodeBuilt_of_spelled {outer : List String} {c : Content} (hspelled : c.Spelled)
    (hforeign : c.selfClosing = true → Open.inForeign (c.name :: outer) = true) :
    Forest.NodeBuilt outer c .nil none where
  spelled := hspelled
  childless _ := rfl
  foreign _ := hforeign
  apart _ := rfl

/-- A leaf is built wherever it is, if it can be spelled. -/
theorem nodeBuilt_leaf {outer : List String} {kind : NodeKind} {value : String}
    (hspelled : (Content.leaf kind value).Spelled) :
    Forest.NodeBuilt outer (.leaf kind value) .nil none :=
  nodeBuilt_of_spelled hspelled fun hself => absurd hself (by simp [Content.leaf])

/-- What a start tag does to a builder. -/
theorem takes_of_start {maxDepth : Nat} {b b' : Builder} {token : Token} {tag : StartTag}
    {raw : Option String} (hname : Tag.IsName tag.name) (has : tag.attributes.Named)
    (h : (b.observe token).start maxDepth tag = .ok (b', raw)) : b.Takes b' := by
  obtain ⟨pending, hopen⟩ :=
    Open.afterStart_suffix tag.name (b.observe token).quirks (b.observe token).openTags
  have hdrop : b.openTags.drop pending.length =
      Open.afterStart tag.name (b.observe token).quirks (b.observe token).openTags := by
    rw [← openTags_observe token b, ← hopen, List.drop_left, hopen]
  rw [start_of_afterStart hopen.symm (by rw [hopen])] at h
  simp only at h
  split at h
  · cases h
    refine .insert token _ _ rfl (nodeBuilt_of_spelled ⟨hname, has⟩ fun hself => ?_)
    rw [hdrop]
    exact (Bool.and_eq_true_iff.mp hself).1
  · next hleaf =>
    split at h
    · cases h
    · cases h
      exact .opened token _ _ rfl (by simpa using hleaf) ⟨hname, has⟩

/-- What an end tag does to a builder. -/
theorem takes_of_finish {maxDepth : Nat} {b b' : Builder} {token : Token} {name : String}
    (h : (b.observe token).finish maxDepth name = .ok b') : b.Takes b' := by
  have hnone : Attributes.Named .empty := ⟨by simp [Attributes.empty], by simp [Attributes.empty]⟩
  unfold finish at h
  simp only at h
  split at h
  · cases hstart : (b.observe token).start maxDepth ⟨"br", .empty, false⟩ with
    | error e =>
      rw [hstart] at h
      cases h
    | ok result =>
      rw [hstart] at h
      cases h
      exact takes_of_start (by decide) hnone hstart
  · split at h
    · cases h
      exact .close token _
    · split at h
      · cases h
        have hp : Forest.NodeBuilt (b.openTags.drop 0) (.element "p" .empty false) .nil none :=
          nodeBuilt_of_spelled ⟨by decide, hnone⟩ fun hself => absurd hself (by decide)
        exact .insert token 0 _ rfl hp
      · cases h
        exact .close token 0

/-- **What a token does to a builder**: nothing but the cases of `Takes`. -/
theorem takes_of_step {maxDepth : Nat} {b b' : Builder} {token : Token} {raw : Option String}
    (htoken : token.Spelled) (h : b.step maxDepth token = .ok (b', raw)) : b.Takes b' := by
  cases token with
  | text value =>
    cases h
    exact .text value htoken
  | comment value | doctype value | cdata value | instruction value =>
    cases h
    exact .insert _ 0 _ rfl (nodeBuilt_leaf htoken)
  | endTag name =>
    have hmap : ((b.observe (.endTag name)).finish maxDepth name).map (·, none) =
        .ok (b', raw) := h
    cases hfinish : (b.observe (.endTag name)).finish maxDepth name with
    | error e =>
      rw [hfinish] at hmap
      cases hmap
    | ok after =>
      rw [hfinish] at hmap
      cases hmap
      exact takes_of_finish hfinish
  | startTag tag => exact takes_of_start htoken.1 htoken.2 h

/-! ## Runs -/

/-- The builder `b'` comes from `b` by taking tokens. -/
def Reaches : Builder → Builder → Prop :=
  Relation.ReflTransGen Takes

/-- **What every token preserves is preserved by any number of them.** -/
theorem Reaches.preserves {P : Builder → Prop}
    (hstep : ∀ ⦃b b' : Builder⦄, b.Takes b' → P b → P b') {b b' : Builder} (h : b.Reaches b')
    (hb : P b) : P b' := by
  induction h with
  | refl => exact hb
  | tail _ htake ih => exact hstep htake ih

/-- **A run does nothing but take tokens.** -/
theorem reaches_of_run {maxDepth : Nat} {b final : Builder} {raw : Option String}
    {input : List Char} (h : run maxDepth b raw input = .ok final) : b.Reaches final := by
  fun_induction run maxDepth b raw input with
  | case1 =>
    cases h
    exact .refl
  | case2 => cases h
  | case3 b raw input token rest hnext b' raw' htake ih =>
    exact (ih h).head (takes_of_step (Token.spelled_of_next? hnext) htake)

/-- Reading from `b` comes to `b'`, with `rest` still to be read. -/
structure Arrives (maxDepth : Nat) (b : Builder) (raw : Option String) (input : List Char)
    (b' : Builder) (raw' : Option String) (rest : List Char) : Prop where
  run : run maxDepth b raw input = run maxDepth b' raw' rest
  reaches : b.Reaches b'

section

variable {maxDepth : Nat} {b b' b'' : Builder} {raw raw' raw'' : Option String}
  {input rest unread : List Char}

theorem Arrives.refl (h : Token.next? raw input = Token.next? raw' input) :
    Arrives maxDepth b raw input b raw' input :=
  ⟨run_congr_next? h, .refl⟩

theorem Arrives.trans (h : Arrives maxDepth b raw input b' raw' rest)
    (h' : Arrives maxDepth b' raw' rest b'' raw'' unread) :
    Arrives maxDepth b raw input b'' raw'' unread :=
  ⟨h.run.trans h'.run, h.reaches.trans h'.reaches⟩

/-- One token. -/
theorem arrives_of_step {token : Token} (hnext : Token.next? raw input = some (token, rest))
    (hstep : b.step maxDepth token = .ok (b', raw')) :
    Arrives maxDepth b raw input b' raw' rest :=
  ⟨run_of_step hnext hstep, .single (takes_of_step (Token.spelled_of_next? hnext) hstep)⟩

end

end Builder

end HtmlMinify
