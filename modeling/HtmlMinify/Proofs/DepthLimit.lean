import HtmlMinify.Proofs.ReadBack
import HtmlMinify.Proofs.TokenLog

/-!
# The depth limit

A builder looks at the depth limit only to refuse an element that would be open one level too deep.
So a run goes through the same states under every limit, up to the token that is refused, and a page
has a nesting of its own: the most elements that are open at once while it is read. A page can be
read under the limits that its nesting does not exceed, and gives the same document under all of
them.

## Main statements

* `Builder.step_eq`, `Builder.run_eq`: what the limit can do to one token, and to a run.
* `Document.parse_cutoff`: the limit is a pure cut-off.
-/

namespace HtmlMinify

namespace Builder

/-! ## One token -/

/-- The outcome under a limit: the builder and the raw text that is asked for, or, if more elements
are open than the limit allows, the error that one is too many. -/
def within (maxDepth : Nat) (taken : Builder × Option String) :
    Except DocumentError (Builder × Option String) :=
  if taken.1.openTags.length ≤ maxDepth then .ok taken
  else .error (.depthExceeded (maxDepth + 1) maxDepth)

theorem within_of_le {maxDepth : Nat} {taken : Builder × Option String}
    (h : taken.1.openTags.length ≤ maxDepth) : within maxDepth taken = .ok taken :=
  if_pos h

/-- A start tag opens at most one element, and only that one can be refused. -/
theorem exists_start (tag : StartTag) (b : Builder) :
    ∃ taken, taken.1.openTags.length ≤ b.openTags.length + 1 ∧
      ∀ maxDepth, b.openTags.length ≤ maxDepth → b.start maxDepth tag = within maxDepth taken := by
  obtain ⟨pending, hopen⟩ := Open.afterStart_suffix tag.name b.quirks b.openTags
  generalize hleft : Open.afterStart tag.name b.quirks b.openTags = outer at hopen
  have hstart := start_of_afterStart hopen.symm (by rw [hopen, hleft])
  have hclosed : (b.close pending.length).openTags = outer := by
    rw [openTags_close, ← hopen, List.drop_left]
  have hfewer : outer.length ≤ b.openTags.length := by
    rw [← hopen, List.length_append]
    omega
  generalize hc : Content.element tag.name tag.attributes
    (Open.inForeign (tag.name :: outer) && tag.selfClosing) = c
  simp only [hc] at hstart
  cases hleaf : c.isLeafElement with
  | true =>
    refine ⟨((b.close pending.length).insert (c, .nil), none), ?_, fun maxDepth hdepth => ?_⟩
    · rw [openTags_insert, hclosed]
      omega
    · rw [hstart, if_pos hleaf, within_of_le]
      rw [openTags_insert, hclosed]
      omega
  | false =>
    refine ⟨((b.close pending.length).opened c,
      if rawIn (tag.name :: outer) then some tag.name else none), ?_, fun maxDepth hdepth => ?_⟩
    · rw [openTags_opened, hclosed, List.length_cons]
      omega
    · rw [hstart, if_neg (by simp [hleaf]), within, openTags_opened, hclosed, List.length_cons]
      by_cases hdeep : outer.length + 1 ≤ maxDepth
      · rw [if_pos hdeep, if_neg (by omega)]
      · -- no more than `maxDepth` elements were open, so the new one is the first too many
        have hcurrent : outer.length + 1 = maxDepth + 1 := by omega
        rw [if_neg hdeep, if_pos (by omega), hcurrent]

/-- An end tag opens nothing, so it is never refused. -/
theorem exists_finish (name : String) (b : Builder) :
    ∃ b', b'.openTags.length ≤ b.openTags.length ∧
      ∀ maxDepth, b.finish maxDepth name = .ok b' := by
  unfold finish
  simp only [start_br]
  split
  · exact ⟨_, by rw [openTags_insert], fun _ => rfl⟩
  · split
    · refine ⟨_, ?_, fun _ => rfl⟩
      rw [closeTo, openTags_close, List.length_drop]
      omega
    · split
      · exact ⟨_, by rw [openTags_insert], fun _ => rfl⟩
      · exact ⟨b, Nat.le_refl _, fun _ => rfl⟩

/-- A token opens at most one element, and only that one can be refused. -/
theorem exists_step (token : Token) (b : Builder) :
    ∃ taken, taken.1.openTags.length ≤ b.openTags.length + 1 ∧
      ∀ maxDepth, b.openTags.length ≤ maxDepth → b.step maxDepth token = within maxDepth taken := by
  -- whatever leaves no more elements open than there were is taken under every limit
  have htaken {result : Builder} {raw : Option String}
      (hfewer : result.openTags.length ≤ b.openTags.length)
      (hstep : ∀ maxDepth, b.step maxDepth token = .ok (result, raw)) :
      ∃ taken, taken.1.openTags.length ≤ b.openTags.length + 1 ∧
        ∀ maxDepth, b.openTags.length ≤ maxDepth →
          b.step maxDepth token = within maxDepth taken := by
    refine ⟨(result, raw), Nat.le_succ_of_le hfewer, fun maxDepth hdepth => ?_⟩
    rw [hstep, within_of_le (Nat.le_trans hfewer hdepth)]
  cases token with
  | text value =>
    refine htaken ?_ fun _ => rfl
    rw [openTags_onChildren, openTags_observe]
  | comment value | doctype value | cdata value | instruction value =>
    refine htaken ?_ fun _ => rfl
    rw [openTags_insert, openTags_observe]
  | endTag name =>
    obtain ⟨b', hfewer, hfinish⟩ := exists_finish name (b.observe (.endTag name))
    rw [openTags_observe] at hfewer
    have hstep (maxDepth : Nat) : b.step maxDepth (.endTag name) = .ok (b', none) := by
      rw [step, hfinish]
      rfl
    exact htaken hfewer hstep
  | startTag tag =>
    have hstart := exists_start tag (b.observe (.startTag tag))
    rwa [openTags_observe] at hstart

/-- What a token makes of a builder where nesting has no limit, and the tag whose raw text it asks
for. A limit of one more element than are open is as good as none. -/
def advance (token : Token) (b : Builder) : Builder × Option String :=
  match b.step (b.openTags.length + 1) token with
  | .ok taken => taken
  | .error _ => (b, none)

/-- **What the limit can do to a token**: refuse the element it opens. -/
theorem step_eq (token : Token) {b : Builder} {maxDepth : Nat} (h : b.openTags.length ≤ maxDepth) :
    b.step maxDepth token = within maxDepth (b.advance token) := by
  obtain ⟨taken, hone, hstep⟩ := exists_step token b
  have hadvance : b.advance token = taken := by
    rw [advance, hstep _ (Nat.le_succ _), within_of_le hone]
  rw [hstep maxDepth h, hadvance]

/-- A token opens at most one element. -/
theorem length_openTags_advance_le (token : Token) (b : Builder) :
    (b.advance token).1.openTags.length ≤ b.openTags.length + 1 := by
  obtain ⟨taken, hone, hstep⟩ := exists_step token b
  rw [advance, hstep _ (Nat.le_succ _), within_of_le hone]
  exact hone

/-! ## Runs -/

/-- The builder at the end of the input, where nesting has no limit. -/
def readAll (b : Builder) (raw : Option String) (input : List Char) : Builder :=
  match _h : Token.next? raw input with
  | none => b
  | some (token, rest) => readAll (b.advance token).1 (b.advance token).2 rest
termination_by input.length
decreasing_by exact Token.length_next?_lt _h

theorem readAll_of_next?_none {b : Builder} {raw : Option String} {input : List Char}
    (h : Token.next? raw input = none) : b.readAll raw input = b := by
  rw [readAll]
  split
  · rfl
  · next hsome =>
    rw [h] at hsome
    cases hsome

theorem readAll_of_next? {b : Builder} {raw : Option String} {input rest : List Char}
    {token : Token} (h : Token.next? raw input = some (token, rest)) :
    b.readAll raw input = (b.advance token).1.readAll (b.advance token).2 rest := by
  rw [readAll]
  split
  · next hnone =>
    rw [h] at hnone
    cases hnone
  · next hsome =>
    rw [h] at hsome
    cases hsome
    rfl

/-- The most elements that are open at once from here to the end of the input. -/
def nesting (b : Builder) (raw : Option String) (input : List Char) : Nat :=
  match _h : Token.next? raw input with
  | none => b.openTags.length
  | some (token, rest) =>
    max b.openTags.length (nesting (b.advance token).1 (b.advance token).2 rest)
termination_by input.length
decreasing_by exact Token.length_next?_lt _h

/-- What is open at the end is all there is. -/
theorem nesting_of_next?_none {b : Builder} {raw : Option String} {input : List Char}
    (h : Token.next? raw input = none) : b.nesting raw input = b.openTags.length := by
  rw [nesting]
  split
  · rfl
  · next hsome =>
    rw [h] at hsome
    cases hsome

/-- The nesting before a token is at least that after it. -/
theorem nesting_of_next? {b : Builder} {raw : Option String} {input rest : List Char}
    {token : Token} (h : Token.next? raw input = some (token, rest)) :
    b.nesting raw input =
      max b.openTags.length ((b.advance token).1.nesting (b.advance token).2 rest) := by
  rw [nesting]
  split
  · next hnone =>
    rw [h] at hnone
    cases hnone
  · next hsome =>
    rw [h] at hsome
    cases hsome
    rfl

/-- The elements that are open count. -/
theorem length_openTags_le_nesting (b : Builder) (raw : Option String) (input : List Char) :
    b.openTags.length ≤ b.nesting raw input := by
  rw [nesting]
  split
  · exact Nat.le_refl _
  · exact Nat.le_max_left _ _

/-- Each element takes a token to open. -/
theorem nesting_le (b : Builder) (raw : Option String) (input : List Char) :
    b.nesting raw input ≤ b.openTags.length + input.length := by
  fun_induction nesting b raw input with
  | case1 => omega
  | case2 b raw input token rest hnext ih =>
    have hone := length_openTags_advance_le token b
    have hless := Token.length_next?_lt hnext
    omega

/-- **What the limit can do to a run**: end it at the first element that would be open one level too
deep. -/
theorem run_eq {maxDepth : Nat} (b : Builder) (raw : Option String) (input : List Char)
    (h : b.openTags.length ≤ maxDepth) :
    run maxDepth b raw input = if b.nesting raw input ≤ maxDepth then .ok (b.readAll raw input)
      else .error (.depthExceeded (maxDepth + 1) maxDepth) := by
  fun_induction nesting b raw input with
  | case1 b raw input hnext =>
    rw [run_of_next?_none hnext, if_pos h, readAll_of_next?_none hnext]
  | case2 b raw input token rest hnext ih =>
    have hstep := step_eq token h
    have hnow := length_openTags_le_nesting (b.advance token).1 (b.advance token).2 rest
    by_cases htaken : (b.advance token).1.openTags.length ≤ maxDepth
    · rw [within_of_le htaken] at hstep
      rw [(run_of_step hnext hstep).trans (ih htaken), readAll_of_next? hnext]
      simp only [Nat.max_le, h, true_and]
    · rw [within, if_neg htaken] at hstep
      rw [run_of_error hnext hstep, if_neg (by omega)]

end Builder

namespace Draft

/-- What a token makes of a draft where nesting has no limit, and the tag whose raw text it asks for. A
limit of one more element than are open is as good as none. -/
def advance (token : Token) (d : Draft) : Draft × Option String :=
  match d.step (d.opened.length + 1) token with
  | .ok taken => taken
  | .error _ => (d, none)

/-- The most elements that are open at once from here to the end of the input. -/
def nesting (d : Draft) (raw : Option String) (input : List Char) : Nat :=
  match _h : Token.next? raw input with
  | none => d.opened.length
  | some (token, rest) =>
    max d.opened.length (nesting (d.advance token).1 (d.advance token).2 rest)
termination_by input.length
decreasing_by exact Token.length_next?_lt _h

namespace Shows

variable {d : Draft} {b : Builder}

/-- Without a limit too, a token makes of the draft what it makes of the builder. -/
theorem advance (h : d.Shows b) (token : Token) : ShowsNext (d.advance token) (b.advance token) := by
  have hagree := h.step (d.opened.length + 1) token
  rw [Draft.advance, Builder.advance, ← Builder.length_frames, ← h.length_opened]
  generalize d.step (d.opened.length + 1) token = taken at hagree ⊢
  generalize b.step (d.opened.length + 1) token = taken' at hagree ⊢
  cases hagree with
  | error e => exact ⟨h, rfl⟩
  | ok hshows => exact hshows

/-- A draft and the builder of its tree nest equally deep. -/
theorem nesting_eq (h : d.Shows b) (raw : Option String) (input : List Char) :
    d.nesting raw input = b.nesting raw input := by
  have hlength {d : Draft} {b : Builder} (h : d.Shows b) :
      d.opened.length = b.openTags.length := h.length_opened.trans b.length_frames
  fun_induction Draft.nesting d raw input generalizing b with
  | case1 d raw input hnext => rw [Builder.nesting_of_next?_none hnext, hlength h]
  | case2 d raw input token rest hnext ih =>
    obtain ⟨hshows, hraw⟩ := h.advance token
    rw [Builder.nesting_of_next? hnext, hlength h, ih hshows, hraw]

end Shows

end Draft

namespace Document

/-- The most elements that are open at once while a page is read. -/
def nesting (page : String) : Nat :=
  Draft.nesting {} none page.toList

/-- The nesting of a page, as a builder finds it. -/
theorem nesting_eq (page : String) : nesting page = Builder.nesting {} none page.toList :=
  Draft.Shows.new.nesting_eq none page.toList

/-- The document of a page, where nesting has no limit. -/
def unlimited (page : String) : Document :=
  .ofForest (Builder.readAll {} none page.toList).forest

/-- A page is read as without a limit, or its nesting is beyond the limit. -/
theorem parse_eq (maxDepth : Nat) (page : String) :
    parse maxDepth page = if nesting page ≤ maxDepth then .ok (unlimited page)
      else .error (.depthExceeded (maxDepth + 1) maxDepth) := by
  rw [parse_eq_map, Forest.parse, Builder.run_eq {} none page.toList (Nat.zero_le maxDepth),
    nesting_eq]
  split <;> rfl

/-- A page that is read under a limit is read under every higher one. -/
theorem parse_of_le {page : String} {doc : Document} {limit higher : Nat}
    (h : parse limit page = .ok doc) (hle : limit ≤ higher) : parse higher page = .ok doc := by
  rw [parse_eq] at h ⊢
  split at h
  · next hnesting =>
    rw [if_pos (Nat.le_trans hnesting hle)]
    exact h
  · cases h

/-- **The depth limit is a pure cut-off.** Under every limit a page is read, or refused for an
element one level below the limit and for nothing else; a document that is read is read under every
higher limit too. Which limits are high enough is a matter of the most elements open at once. -/
theorem parse_cutoff (page : String) (maxDepth : Nat) :
    ((∃ doc, parse maxDepth page = .ok doc) ∨
        parse maxDepth page = .error (.depthExceeded (maxDepth + 1) maxDepth)) ∧
      (∀ doc, parse maxDepth page = .ok doc →
        ∀ higher, maxDepth ≤ higher → parse higher page = .ok doc) ∧
      ((∃ doc, parse maxDepth page = .ok doc) ↔ nesting page ≤ maxDepth) ∧
      nesting page ≤ page.length := by
  have hlow (h : nesting page ≤ maxDepth) : parse maxDepth page = .ok (unlimited page) := by
    rw [parse_eq, if_pos h]
  have hhigh (h : ¬ nesting page ≤ maxDepth) :
      parse maxDepth page = .error (.depthExceeded (maxDepth + 1) maxDepth) := by
    rw [parse_eq, if_neg h]
  have hiff : (∃ doc, parse maxDepth page = .ok doc) ↔ nesting page ≤ maxDepth := by
    refine ⟨fun ⟨doc, hdoc⟩ => ?_, fun h => ⟨_, hlow h⟩⟩
    by_contra hdeep
    rw [hhigh hdeep] at hdoc
    cases hdoc
  refine ⟨?_, fun doc hdoc higher hle => parse_of_le hdoc hle, hiff, ?_⟩
  · by_cases h : nesting page ≤ maxDepth
    · exact .inl ⟨_, hlow h⟩
    · exact .inr (hhigh h)
  · have hle := Builder.nesting_le {} none page.toList
    rw [String.length_toList, ← nesting_eq] at hle
    exact Nat.le_trans hle (Nat.le_of_eq (Nat.zero_add _))

/-- Two elements at once are one too many under a limit of one. -/
theorem parse_cutoff_boldInItalic :
    parse 1 "<i><b>a" = .error (.depthExceeded 2 1) ∧
      ∃ doc, parse 2 "<i><b>a" = .ok doc ∧ parse 512 "<i><b>a" = .ok doc := by
  have hfirst : Token.next? none "<i><b>a".toList =
      some (.startTag ⟨"i", .empty, false⟩, "<b>a".toList) :=
    Builder.next?_bareTag "i" (by decide) _
  have hsecond : Token.next? none "<b>a".toList =
      some (.startTag ⟨"b", .empty, false⟩, "a".toList) :=
    Builder.next?_bareTag "b" (by decide) _
  have hthird : Token.next? none "a".toList = some (.text "a", []) := rfl
  have hlow : Builder.run 1 {} none "<i><b>a".toList = .error (.depthExceeded 2 1) :=
    (Builder.run_of_step hfirst rfl).trans (Builder.run_of_error hsecond rfl)
  have hhigh : ∃ b, Builder.run 2 {} none "<i><b>a".toList = .ok b :=
    ⟨_, (Builder.run_of_step hfirst rfl).trans <| (Builder.run_of_step hsecond rfl).trans <|
      (Builder.run_of_step hthird rfl).trans (Builder.run_nil 2 _)⟩
  obtain ⟨b, hrun⟩ := hhigh
  obtain ⟨-, hsame, -⟩ := parse_cutoff "<i><b>a" 2
  refine ⟨?_, _, parse_of_run hrun, hsame _ (parse_of_run hrun) 512 (by decide)⟩
  rw [parse_eq_map, Forest.parse, hlow]
  rfl

end Document

end HtmlMinify
