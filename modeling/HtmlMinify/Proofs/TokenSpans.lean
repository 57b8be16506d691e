import HtmlMinify.Proofs.DepthLimit
import HtmlMinify.Proofs.Tokens

/-!
# Tokens tile the input

Every token is read from a piece of the input, its span, and the next one from where that ends. Only
end tags without a name are passed over in between. So nothing of a page is lost or read twice, reading
always gets on, and it stops at the end and nowhere before. A text is its whole span, and whatever else
a token holds stands in its span.

This does not depend on who takes the tokens: the taker is an arbitrary function with a state of its
own, which says after each token which raw text follows, if any. `Draft.advance` is one.

## Main statements

* `Token.exists_span_of_next?`, `Token.eq_emptyEndTags_of_next?_none`: what one call reads.
* `Token.readAll_tiles`: what all calls read together.
* `Document.tokens_log`: the tokens of a page that is parsed are what these calls read.
-/

namespace HtmlMinify

open Text

namespace Token

/-- The texts that a token holds: values, and the names and values of tags and their attributes. -/
def payloads : Token → List String
  | .startTag tag => tag.name :: tag.attributes.toList.flatMap fun a => a.name :: a.value.toList
  | .doctype value | .endTag value | .text value | .comment value | .cdata value
  | .instruction value => [value]

/-- The token was read from this piece of the input: a text is all of it, and other tokens hold parts
of it. -/
structure Spans (token : Token) (span : List Char) : Prop where
  ne_nil : span ≠ []
  text : ∀ value, token = .text value → span = value.toList
  payload : ∀ value ∈ token.payloads, value.toList <:+: span

/-- A number of end tags without a name. -/
def emptyEndTags (n : Nat) : List Char :=
  (List.replicate n ['<', '/', '>']).flatten

theorem emptyEndTags_succ (n : Nat) :
    emptyEndTags (n + 1) = '<' :: '/' :: '>' :: emptyEndTags n := rfl

/-! ## Start tags -/

end Token

namespace StartTag

/-- A value stands in what is read for it. -/
theorem exists_read_of_readValue? {input rest : List Char} {value : String}
    (h : readValue? input = some (value, rest)) :
    ∃ read, input = read ++ rest ∧ value.toList <:+: read := by
  have hskip : input.takeWhile isSpace ++ input.dropWhile isSpace = input :=
    List.takeWhile_append_dropWhile
  unfold readValue? at h
  split at h
  · cases h
  · next c cs heq =>
    rw [heq] at hskip
    split at h
    · split at h
      · next value' after hbreak =>
        cases h
        refine ⟨input.takeWhile isSpace ++ [c] ++ value' ++ [c], ?_, ?_⟩
        · rw [eq_append_of_breakOnChar? hbreak] at hskip
          simpa using hskip.symm
        · rw [String.toList_ofList]
          exact List.infix_append _ _ _
      · cases h
    · cases h
      refine ⟨input.takeWhile isSpace ++ (c :: cs).takeWhile inBareValue, ?_, ?_⟩
      · rw [List.append_assoc, List.takeWhile_append_dropWhile, hskip]
      · rw [String.toList_ofList]
        exact (List.suffix_append _ _).isInfix

/-- The name and the value of an attribute stand in what is read for it. -/
theorem exists_read_of_readAttribute? {first : Char} {input rest : List Char} {a : Attribute}
    (h : readAttribute? first input = some (a, rest)) :
    ∃ read, input = read ++ rest ∧
      ∀ payload ∈ a.name :: a.value.toList, payload.toList <:+: first :: read := by
  have hname : input.takeWhile inAttributeName ++ input.dropWhile inAttributeName = input :=
    List.takeWhile_append_dropWhile
  have hskip : (input.dropWhile inAttributeName).takeWhile isSpace ++
      (input.dropWhile inAttributeName).dropWhile isSpace = input.dropWhile inAttributeName :=
    List.takeWhile_append_dropWhile
  have hfirst (more : List Char) : first :: input.takeWhile inAttributeName <:+:
      first :: (input.takeWhile inAttributeName ++ more) :=
    ((List.cons_prefix_cons).mpr ⟨rfl, List.prefix_append _ _⟩).isInfix
  unfold readAttribute? at h
  simp only at h
  split at h
  · next cs heq =>
    split at h
    · next value unread hvalue =>
      cases h
      obtain ⟨read, rfl, hread⟩ := exists_read_of_readValue? hvalue
      rw [heq] at hskip
      refine ⟨input.takeWhile inAttributeName ++
        ((input.dropWhile inAttributeName).takeWhile isSpace ++ '=' :: read), ?_, ?_⟩
      · rw [List.append_assoc, List.append_assoc, List.cons_append, hskip, hname]
      · intro payload hpayload
        rcases List.mem_cons.mp hpayload with rfl | hpayload
        · rw [String.toList_ofList]
          exact hfirst _
        · obtain rfl : payload = value := by simpa using hpayload
          refine hread.trans (List.IsSuffix.isInfix ?_)
          exact ⟨first :: (input.takeWhile inAttributeName ++
            ((input.dropWhile inAttributeName).takeWhile isSpace ++ ['='])), by simp⟩
    · cases h
  · cases h
    refine ⟨input.takeWhile inAttributeName, hname.symm, fun payload hpayload => ?_⟩
    obtain rfl : payload = String.ofList (first :: input.takeWhile inAttributeName) := by
      simpa using hpayload
    rw [String.toList_ofList]

/-- Attributes stand in what is read for them, or were found before. -/
theorem exists_read_of_readAttributes? {found as : List Attribute} {input rest : List Char}
    {selfClosing : Bool} (h : readAttributes? found input = some (as, selfClosing, rest)) :
    ∃ read, input = read ++ rest ∧ ∀ a ∈ as, a ∈ found ∨
      ∀ payload ∈ a.name :: a.value.toList, payload.toList <:+: read := by
  fun_induction readAttributes? found input with
  | case1 => cases h
  | case2 found input after heq =>
    cases h
    refine ⟨input.takeWhile isSpace ++ ['>'], ?_, fun a ha => .inl ha⟩
    rw [List.append_assoc, List.singleton_append, ← heq, List.takeWhile_append_dropWhile]
  | case3 found input after heq =>
    cases h
    refine ⟨input.takeWhile isSpace ++ ['/', '>'], ?_, fun a ha => .inl ha⟩
    rw [List.append_assoc, List.cons_append, List.singleton_append, ← heq,
      List.takeWhile_append_dropWhile]
  | case4 found input after _ heq ih =>
    obtain ⟨read, rfl, hread⟩ := ih h
    refine ⟨input.takeWhile isSpace ++ '/' :: read, ?_, fun a ha => (hread a ha).imp_right ?_⟩
    · rw [List.append_assoc, List.cons_append, ← heq, List.takeWhile_append_dropWhile]
    · exact fun hpayload payload hmem => (hpayload payload hmem).trans
        ((List.suffix_cons _ _).trans (List.suffix_append _ _)).isInfix
  | case5 found input c after _ _ _ heq a unread ha ih =>
    obtain ⟨read, rfl, hread⟩ := ih h
    obtain ⟨first, rfl, hfirst⟩ := exists_read_of_readAttribute? ha
    refine ⟨input.takeWhile isSpace ++ c :: (first ++ read), ?_, fun b hb => ?_⟩
    · rw [List.append_assoc, List.cons_append, List.append_assoc, ← heq,
        List.takeWhile_append_dropWhile]
    · rcases hread b hb with hfound | hpayload
      · rcases List.mem_cons.mp hfound with rfl | hfound
        · refine .inr fun payload hmem => (hfirst payload hmem).trans ?_
          exact ⟨input.takeWhile isSpace, read, by simp⟩
        · exact .inl hfound
      · refine .inr fun payload hmem => (hpayload payload hmem).trans ?_
        exact ⟨input.takeWhile isSpace ++ c :: first, [], by simp⟩
  | case6 => simp_all

/-- The name of a start tag and all its attributes stand in what is read for it. -/
theorem exists_read_of_read? {input rest : List Char} {tag : StartTag}
    (h : read? input = some (tag, rest)) :
    ∃ read, input = read ++ rest ∧
      ∀ payload ∈ Token.payloads (.startTag tag), payload.toList <:+: read := by
  unfold read? at h
  split at h
  · next found selfClosing unread hattributes =>
    cases h
    obtain ⟨read, hread, hfound⟩ := exists_read_of_readAttributes? hattributes
    refine ⟨input.takeWhile (!endsName ·) ++ read, ?_, fun payload hpayload => ?_⟩
    · rw [List.append_assoc, ← hread, List.takeWhile_append_dropWhile]
    · rcases List.mem_cons.mp hpayload with rfl | hpayload
      · rw [String.toList_ofList]
        exact (List.prefix_append _ _).isInfix
      · obtain ⟨a, ha, hmem⟩ := List.mem_flatMap.mp hpayload
        have hread := hfound a (List.mem_reverse.mp (Attributes.mem_of_mem_distinctAfter ha))
        rcases hread with hnone | hread
        · cases hnone
        · exact (hread payload hmem).trans (List.suffix_append _ _).isInfix
  · cases h

end StartTag

namespace Token

/-! ## Other tokens -/

/-- A token was read from the input after its opening, and the rest was left. -/
def Cuts (opening input : List Char) (result : Token × List Char) : Prop :=
  ∃ read, input = read ++ result.2 ∧ result.1.Spans (opening ++ read)

/-- A text is the whole of its span. -/
theorem spans_ofText {span : List Char} (h : span ≠ []) : (ofText span).Spans span where
  ne_nil := h
  text value hvalue := by
    cases hvalue
    rw [String.toList_ofList]
  payload value hvalue := by
    obtain rfl : value = String.ofList span := by simpa [payloads, ofText] using hvalue
    rw [String.toList_ofList]

/-- All that is left is text. -/
theorem cuts_ofText {opening : List Char} (h : opening ≠ []) (input : List Char) :
    Cuts opening input (ofText (opening ++ input), []) :=
  ⟨input, (List.append_nil input).symm, spans_ofText fun hnil => h (List.append_eq_nil_iff.mp hnil).1⟩

/-- A token other than a text, by what it holds. -/
theorem cuts_of_payload {opening read rest : List Char} {token : Token} (hopening : opening ≠ [])
    (htext : ∀ value, token ≠ .text value)
    (hpayload : ∀ value ∈ token.payloads, value.toList <:+: read) :
    Cuts opening (read ++ rest) (token, rest) := by
  refine ⟨read, rfl, fun hnil => hopening (List.append_eq_nil_iff.mp hnil).1, fun value hvalue => ?_,
    fun value hvalue => ?_⟩
  · exact absurd hvalue (htext value)
  · exact (hpayload value hvalue).trans (List.suffix_append _ _).isInfix

/-- Tokens made in this way hold one value, and are no texts. -/
structure HoldsValue (make : String → Token) : Prop where
  payloads : ∀ value, (make value).payloads = [value]
  ne_text : ∀ value other, make value ≠ .text other

theorem holdsValue_comment : HoldsValue .comment := ⟨fun _ => rfl, fun _ _ => Token.noConfusion⟩

theorem holdsValue_doctype : HoldsValue .doctype := ⟨fun _ => rfl, fun _ _ => Token.noConfusion⟩

theorem holdsValue_cdata : HoldsValue .cdata := ⟨fun _ => rfl, fun _ _ => Token.noConfusion⟩

theorem holdsValue_instruction : HoldsValue .instruction :=
  ⟨fun _ => rfl, fun _ _ => Token.noConfusion⟩

theorem holdsValue_endTag : HoldsValue .endTag := ⟨fun _ => rfl, fun _ _ => Token.noConfusion⟩

/-- A token with one value, which begins what is read. -/
theorem cuts_of_value {opening : List Char} {make : String → Token} (hopening : opening ≠ [])
    (hmake : HoldsValue make) (value tail rest : List Char) :
    Cuts opening (value ++ tail ++ rest) (make (String.ofList value), rest) := by
  refine cuts_of_payload hopening (hmake.ne_text _) fun payload hpayload => ?_
  rw [hmake.payloads, List.mem_singleton] at hpayload
  rw [hpayload, String.toList_ofList]
  exact (List.prefix_append _ _).isInfix

/-- A token with one value that runs to the end. -/
theorem cuts_to_end {opening : List Char} {make : String → Token} (hopening : opening ≠ [])
    (hmake : HoldsValue make) (value : List Char) :
    Cuts opening value (make (String.ofList value), []) := by
  have := cuts_of_value hopening hmake value [] []
  rwa [List.append_nil, List.append_nil] at this

/-- A token with one value that ends at a character. -/
theorem cuts_of_breakOnChar? {opening input value rest : List Char} {mark : Char}
    {make : String → Token} (hopening : opening ≠ []) (hmake : HoldsValue make)
    (h : breakOnChar? mark input = some (value, rest)) :
    Cuts opening input (make (String.ofList value), rest) := by
  have := cuts_of_value hopening hmake value [mark] rest
  rwa [List.append_assoc, List.singleton_append, ← eq_append_of_breakOnChar? h] at this

/-- A token with one value that ends at a mark. -/
theorem cuts_of_breakOn? {opening input value rest mark : List Char} {make : String → Token}
    (hopening : opening ≠ []) (hmake : HoldsValue make) (h : breakOn? mark input = some (value, rest)) :
    Cuts opening input (make (String.ofList value), rest) := by
  rw [eq_append_of_breakOn? h]
  exact cuts_of_value hopening hmake value mark rest

/-- What the opening is can be read off the input. -/
theorem Cuts.of_append {opening more input : List Char} {result : Token × List Char}
    (h : Cuts (opening ++ more) input result) : Cuts opening (more ++ input) result := by
  obtain ⟨read, rfl, hspans⟩ := h
  exact ⟨more ++ read, (List.append_assoc _ _ _).symm, List.append_assoc opening more read ▸ hspans⟩

/-- A comment that is none is cut from the input. -/
theorem cuts_bogusComment {opening : List Char} (h : opening ≠ []) (body : List Char) :
    Cuts opening body (bogusComment body) := by
  unfold bogusComment
  split
  · next hbreak => exact cuts_of_breakOnChar? h holdsValue_comment hbreak
  · exact cuts_to_end h holdsValue_comment body

/-- So is a comment. -/
theorem cuts_properComment {opening : List Char} (h : opening ≠ []) (body : List Char) :
    Cuts opening body (properComment body) := by
  unfold properComment
  split
  · next rest => exact cuts_of_value h holdsValue_comment [] ['>'] rest
  · next rest => exact cuts_of_value h holdsValue_comment [] ['-', '>'] rest
  · split
    · next hbreak => exact cuts_of_breakOn? h holdsValue_comment hbreak
    · exact cuts_to_end h holdsValue_comment body

/-- So is a declaration. -/
theorem cuts_declaration {opening : List Char} (h : opening = ['<', '!']) (body : List Char) :
    Cuts opening body (declaration body) := by
  have hne (more : List Char) : opening ++ more ≠ [] := by simp [h]
  unfold declaration
  split
  · next inner hdash =>
    rw [eq_append_of_isPrefixOf? hdash]
    exact (cuts_properComment (hne _) inner).of_append
  · split
    · split
      · next hbreak =>
        exact cuts_of_breakOnChar? (by simp [h]) holdsValue_doctype hbreak
      · subst h
        exact cuts_ofText (by simp) body
    · split
      · next inner hcdata =>
        rw [eq_append_of_isPrefixOf? hcdata]
        refine Cuts.of_append ?_
        split
        · next hbreak =>
          exact cuts_of_breakOn? (hne _) holdsValue_cdata hbreak
        · exact cuts_to_end (hne _) holdsValue_cdata inner
      · exact cuts_bogusComment (by simp [h]) body

/-- So is an end tag. -/
theorem cuts_closing (body : List Char) : Cuts ['<', '/'] body (closing body) := by
  unfold closing
  split
  · exact cuts_ofText (by simp) []
  · next c cs =>
    split
    · split
      · next skipped rest hbreak =>
        have hname : (c :: cs).takeWhile (!endsName ·) ++ (c :: cs).dropWhile (!endsName ·) =
            c :: cs := List.takeWhile_append_dropWhile
        rw [eq_append_of_breakOnChar? hbreak] at hname
        have hcuts : Cuts ['<', '/']
            ((c :: cs).takeWhile (!endsName ·) ++ (skipped ++ ['>']) ++ rest)
            (.endTag (String.ofList ((c :: cs).takeWhile (!endsName ·))), rest) :=
          cuts_of_value (by simp) holdsValue_endTag _ _ rest
        rwa [List.append_assoc, List.append_assoc, List.singleton_append, hname] at hcuts
      · exact cuts_ofText (by simp) (c :: cs)
    · exact cuts_bogusComment (by simp) (c :: cs)

/-- So is what follows a bracket. -/
theorem cuts_afterAngle (input : List Char) : Cuts ['<'] input (afterAngle input) := by
  unfold afterAngle
  split
  · next body =>
    have hcuts : Cuts (['<'] ++ ['!']) body (declaration body) := cuts_declaration rfl body
    exact hcuts.of_append
  · next body =>
    split
    · next value rest hbreak =>
      have hcuts : Cuts (['<'] ++ ['?']) body (.instruction (String.ofList value), rest) :=
        cuts_of_breakOnChar? (by simp) holdsValue_instruction hbreak
      exact hcuts.of_append
    · exact cuts_ofText (by simp) ('?' :: body)
  · next body =>
    have hcuts : Cuts (['<'] ++ ['/']) body (closing body) := cuts_closing body
    exact hcuts.of_append
  · next c more _ _ _ =>
    split
    · split
      · next tag rest hread =>
        obtain ⟨read, hinput, hpayload⟩ := StartTag.exists_read_of_read? hread
        rw [hinput]
        exact cuts_of_payload (by simp) (fun _ => Token.noConfusion) hpayload
      · exact cuts_ofText (by simp) (c :: more)
    · exact ⟨(c :: more).takeWhile (· != '<'), List.takeWhile_append_dropWhile.symm,
        spans_ofText (by simp)⟩
  · exact cuts_ofText (by simp) []

/-! ## One call -/

/-- Outside raw text a token is read where its span begins. -/
theorem exists_span_of_plain? {input rest : List Char} {token : Token}
    (h : plain? input = some (token, rest)) :
    ∃ span, input = span ++ rest ∧ token.Spans span := by
  unfold plain? at h
  split at h
  · cases h
  · next more =>
    obtain ⟨read, hmore, hspans⟩ := cuts_afterAngle more
    rw [Option.some.inj h] at hmore hspans
    exact ⟨'<' :: read, by rw [List.cons_append, ← hmore], hspans⟩
  · next hempty hangle =>
    cases h
    refine ⟨_, List.takeWhile_append_dropWhile.symm, spans_ofText ?_⟩
    cases input with
    | nil => exact absurd rfl hempty
    | cons c cs =>
      have hc : (c != '<') = true := by
        rw [bne_iff_ne]
        rintro rfl
        exact hangle cs rfl
      rw [List.takeWhile_cons, if_pos hc]
      simp

/-- Raw text begins where the reader stands. -/
theorem exists_span_of_rawText? {tag : String} {input rest : List Char} {token : Token}
    (h : rawText? tag input = some (token, rest)) :
    ∃ span, input = span ++ rest ∧ token.Spans span := by
  unfold rawText? at h
  split at h
  next before after heq =>
  have hinput : input = before ++ after := by
    split at heq
    · cases heq
      rw [List.append_nil]
    · rw [← rawText_append tag input, heq]
  cases before with
  | nil => cases h
  | cons c cs =>
    cases h
    exact ⟨c :: cs, hinput, spans_ofText (by simp)⟩

/-- What is dropped before a token are end tags without a name. -/
theorem exists_emptyEndTags_append (input : List Char) :
    ∃ n, input = emptyEndTags n ++ dropEmptyEndTags input := by
  fun_induction dropEmptyEndTags input with
  | case1 rest ih =>
    obtain ⟨n, hn⟩ := ih
    exact ⟨n + 1, by rw [emptyEndTags_succ, List.cons_append, List.cons_append, List.cons_append, ← hn]⟩
  | case2 => exact ⟨0, rfl⟩

/-- Only at the end of the input there is no plain text. -/
theorem plain?_eq_none_iff {input : List Char} : plain? input = none ↔ input = [] := by
  unfold plain?
  split <;> simp_all

/-- **A token is read from its span**, after end tags without a name. -/
theorem exists_span_of_next? {raw : Option String} {input rest : List Char} {token : Token}
    (h : next? raw input = some (token, rest)) :
    ∃ n span, input = emptyEndTags n ++ (span ++ rest) ∧ token.Spans span := by
  unfold next? at h
  split at h
  · next result hraw =>
    cases h
    obtain ⟨tag, -, htag⟩ := Option.bind_eq_some_iff.mp hraw
    obtain ⟨span, hinput, hspans⟩ := exists_span_of_rawText? htag
    exact ⟨0, span, hinput, hspans⟩
  · obtain ⟨n, hdropped⟩ := exists_emptyEndTags_append input
    obtain ⟨span, hspan, hspans⟩ := exists_span_of_plain? h
    exact ⟨n, span, hdropped.trans (by rw [hspan]), hspans⟩

/-- **Reading stops at the end only**, where at most end tags without a name are left. -/
theorem eq_emptyEndTags_of_next?_none {raw : Option String} {input : List Char}
    (h : next? raw input = none) : ∃ n, input = emptyEndTags n := by
  unfold next? at h
  split at h
  · cases h
  · obtain ⟨n, hdropped⟩ := exists_emptyEndTags_append input
    rw [plain?_eq_none_iff.mp h, List.append_nil] at hdropped
    exact ⟨n, hdropped⟩

/-! ## All calls -/

/-- The tokens of the input, each with what is left unread after it. Whoever takes a token goes over to
another state, and says which raw text follows, if any. -/
def readAll {σ : Type} (take : Token → σ → σ × Option String) (state : σ) (raw : Option String)
    (input : List Char) : List (Token × List Char) :=
  match _h : next? raw input with
  | none => []
  | some (token, rest) =>
    (token, rest) :: readAll take (take token state).1 (take token state).2 rest
termination_by input.length
decreasing_by exact length_next?_lt _h

section Calls

variable {σ : Type} {take : Token → σ → σ × Option String} {state : σ} {raw : Option String}
  {input rest : List Char} {token : Token}

theorem readAll_of_next?_none (h : next? raw input = none) : readAll take state raw input = [] := by
  rw [readAll]
  split
  · rfl
  · next hsome =>
    rw [h] at hsome
    cases hsome

theorem readAll_of_next? (h : next? raw input = some (token, rest)) :
    readAll take state raw input =
      (token, rest) :: readAll take (take token state).1 (take token state).2 rest := by
  rw [readAll]
  split
  · next hnone =>
    rw [h] at hnone
    cases hnone
  · next hsome =>
    rw [h] at hsome
    cases hsome
    rfl

end Calls

/-- The tokens were read from the input one after the other: each from a span of its own, with end tags
without a name before it, and such end tags after the last one. -/
inductive Tiles : List Char → List (Token × List Char) → Prop where
  | nil (n : Nat) : Tiles (emptyEndTags n) []
  | cons (n : Nat) {span rest : List Char} {token : Token} {reading : List (Token × List Char)}
    (hspans : token.Spans span) (hrest : Tiles rest reading) :
    Tiles (emptyEndTags n ++ (span ++ rest)) ((token, rest) :: reading)

/-- **What is read tiles the input**, whoever takes the tokens. -/
theorem tiles_readAll {σ : Type} (take : Token → σ → σ × Option String) (state : σ)
    (raw : Option String) (input : List Char) : Tiles input (readAll take state raw input) := by
  fun_induction readAll take state raw input with
  | case1 state raw input hnext =>
    obtain ⟨n, rfl⟩ := eq_emptyEndTags_of_next?_none hnext
    exact .nil n
  | case2 state raw input token rest hnext ih =>
    obtain ⟨n, span, rfl, hspans⟩ := exists_span_of_next? hnext
    exact .cons n hspans ih

/-- The spans and the end tags without a name, put together again, are the input. -/
theorem Tiles.exists_pieces {input : List Char} {reading : List (Token × List Char)}
    (h : Tiles input reading) :
    ∃ (pieces : List (Nat × List Char)) (last : Nat),
      input = pieces.flatMap (fun piece => emptyEndTags piece.1 ++ piece.2) ++ emptyEndTags last ∧
      List.Forall₂ (fun read piece => read.1.Spans piece.2) reading pieces := by
  induction h with
  | nil n => exact ⟨[], n, rfl, .nil⟩
  | @cons n span rest token reading hspans _ ih =>
    obtain ⟨pieces, last, hrest, hpieces⟩ := ih
    refine ⟨(n, span) :: pieces, last, ?_, .cons hspans hpieces⟩
    rw [List.flatMap_cons, List.append_assoc, ← hrest, List.append_assoc]

/-! ## Positions -/

/-- The position in a page where this part of it is left unread. -/
def position (page : String) (unread : List Char) : String.Pos.Raw :=
  ⟨page.utf8ByteSize - (String.ofList unread).utf8ByteSize⟩

variable {page : String} {before unread : List Char}

/-- A position is where the characters before it end. -/
theorem position_eq (h : page.toList = before ++ unread) :
    position page unread = (String.ofList before).rawEndPos := by
  have hpage : page = String.ofList before ++ String.ofList unread := by
    rw [← String.ofList_append, ← h, String.ofList_toList]
  rw [position, hpage, String.utf8ByteSize_append, Nat.add_sub_cancel]
  rfl

/-- What is left begins between two characters of the page, or at its end. -/
theorem isValid_position (h : page.toList = before ++ unread) :
    (position page unread).IsValid page := by
  rw [String.Pos.Raw.isValid_iff_exists_append]
  refine ⟨String.ofList before, String.ofList unread, ?_, position_eq h⟩
  rw [← String.ofList_append, ← h, String.ofList_toList]

/-- Reading on moves the position. -/
theorem position_lt {read : List Char} (h : page.toList = before ++ (read ++ unread))
    (hread : read ≠ []) : position page (read ++ unread) < position page unread := by
  have hsize : 0 < (String.ofList read).utf8ByteSize := by
    rw [Nat.pos_iff_ne_zero, ne_eq, String.utf8ByteSize_eq_zero_iff]
    intro hempty
    exact hread (by rw [← String.toList_ofList (l := read), hempty]; rfl)
  rw [position_eq h, position_eq ((List.append_assoc before read unread).symm ▸ h),
    String.Pos.Raw.lt_iff, String.ofList_append]
  simp only [String.byteIdx_rawEndPos, String.utf8ByteSize_append]
  omega

/-- Each token moves the position on, and always to one of the page. -/
theorem Tiles.positions {reading : List (Token × List Char)} (h : Tiles unread reading)
    (hpage : page.toList = before ++ unread) :
    ((unread :: reading.map (·.2)).map (position page)).IsChain (· < ·) ∧
      ∀ left ∈ unread :: reading.map (·.2), (position page left).IsValid page := by
  induction h generalizing before with
  | nil n => exact ⟨.singleton _, List.forall_mem_singleton.mpr (isValid_position hpage)⟩
  | @cons n span rest token reading hspans _ ih =>
    have hread : page.toList = before ++ ((emptyEndTags n ++ span) ++ rest) := by
      rw [hpage, List.append_assoc]
    have hrest : page.toList = (before ++ (emptyEndTags n ++ span)) ++ rest :=
      hread.trans (List.append_assoc before _ rest).symm
    obtain ⟨hchain, hvalid⟩ := ih hrest
    refine ⟨?_, List.forall_mem_cons.mpr ⟨isValid_position hpage, hvalid⟩⟩
    have hless := position_lt hread fun hnil => hspans.ne_nil (List.append_eq_nil_iff.mp hnil).2
    rw [List.append_assoc] at hless
    exact .cons_cons hless hchain

/-- **Tokens tile the page.** Whoever takes them, and whatever raw text is asked for: each token is read
from its own span of the page, right after the one before and after end tags without a name, until
nothing but such end tags is left. The position grows with each token, and never falls inside a
character or behind the end. The page is its spans and those end tags, in order. -/
theorem readAll_tiles {σ : Type} (take : Token → σ → σ × Option String) (state : σ)
    (raw : Option String) (page : String) :
    let reading := readAll take state raw page.toList
    let unread := page.toList :: reading.map (·.2)
    Tiles page.toList reading ∧ (unread.map (position page)).IsChain (· < ·) ∧
      (∀ left ∈ unread, (position page left).IsValid page) ∧
      ∃ (pieces : List (Nat × List Char)) (last : Nat),
        page.toList =
          pieces.flatMap (fun piece => emptyEndTags piece.1 ++ piece.2) ++ emptyEndTags last ∧
        List.Forall₂ (fun read piece => read.1.Spans piece.2) reading pieces := by
  have htiles := tiles_readAll take state raw page.toList
  obtain ⟨hchain, hvalid⟩ := htiles.positions (List.nil_append page.toList).symm
  exact ⟨htiles, hchain, hvalid, htiles.exists_pieces⟩

end Token

/-- A builder that does not fail takes the tokens that are read for it. -/
theorem Builder.tokens_log {maxDepth : Nat} {b final : Builder} {raw : Option String}
    {input : List Char} (hdepth : b.openTags.length ≤ maxDepth)
    (h : run maxDepth b raw input = .ok final) :
    (log maxDepth b raw input).map (·.token) =
      (Token.readAll advance b raw input).map (·.1) := by
  fun_induction run maxDepth b raw input with
  | case1 b raw input hnext =>
    rw [Token.readAll_of_next?_none hnext, log]
    split
    · rfl
    · next hsome =>
      rw [hnext] at hsome
      cases hsome
  | case2 => cases h
  | case3 b raw input token rest hnext b' raw' hstep ih =>
    have htaken := step_eq token hdepth
    rw [hstep, within] at htaken
    split at htaken
    · next hdepth' =>
      have hadvance : b.advance token = (b', raw') := (Except.ok.inj htaken).symm
      rw [hadvance] at hdepth'
      rw [Token.readAll_of_next? hnext, hadvance, (run_log_of_step rest hnext hstep ⟨h, rfl⟩).2,
        List.map_cons, List.map_cons, ih hdepth' h]
    · cases htaken

/-- For a draft the same tokens are read as for the builder of its tree. -/
theorem Draft.Shows.readAll_eq {d : Draft} {b : Builder} (h : d.Shows b) (raw : Option String)
    (input : List Char) :
    Token.readAll Draft.advance d raw input = Token.readAll Builder.advance b raw input := by
  fun_induction Token.readAll Draft.advance d raw input generalizing b with
  | case1 d raw input hnext => rw [Token.readAll_of_next?_none hnext]
  | case2 d raw input token rest hnext ih =>
    obtain ⟨hshows, hraw⟩ := h.advance token
    rw [Token.readAll_of_next? hnext, ih hshows, hraw]

/-- **The tokens of a page that is parsed are those that tile it.** -/
theorem Document.tokens_log {maxDepth : Nat} {page : String} {doc : Document}
    (h : Document.parse maxDepth page = .ok doc) :
    (log maxDepth page).map (·.token) =
      (Token.readAll Draft.advance {} none page.toList).map (·.1) := by
  obtain ⟨b, hrun, -, -⟩ := exists_reads_of_parse h
  rw [log_eq, Draft.Shows.new.readAll_eq, Builder.tokens_log (Nat.zero_le maxDepth) hrun]

end HtmlMinify
