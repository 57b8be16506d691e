import HtmlMinify.Proofs.TagReading
import Mathlib.Data.List.Chain

/-!
# Texts and declarations are read as they were written

Comments, character data, instructions and doctypes are read up to the mark that ends them; each is
spelled so that the mark is not in it. An escaped text holds no `<` that begins markup, though it may
hold others: it is read in pieces, and each piece is a text. Raw text is read up to its end tag.

## Main statements

* `Token.next?_writeLeaf`: a node of another kind than element and text.
* `Token.next?_of_isPlain`: the next piece of an escaped text.
* `Token.rawText_append_writeEnd`: a raw text.
-/

namespace HtmlMinify

open Text

/-! ## Comments and declarations -/

/-- The markup of a node that is neither an element nor a text. -/
def Content.writeLeaf (c : Content) : List Char :=
  match c.kind with
  | .doctype => '<' :: '!' :: c.value.toList ++ ['>']
  | .comment => '<' :: '!' :: '-' :: '-' :: c.value.toList ++ ['-', '-', '>']
  | .cdata => "<![CDATA[".toList ++ c.value.toList ++ [']', ']', '>']
  | .instruction => '<' :: '?' :: c.value.toList ++ ['>']
  | _ => []

/-- The token of a node that is neither an element nor a text. -/
def Content.leafToken (c : Content) : Token :=
  match c.kind with
  | .doctype => .doctype c.value
  | .cdata => .cdata c.value
  | .instruction => .instruction c.value
  | _ => .comment c.value

/-- A node that is neither an element nor a text nor the document. -/
def Content.isDeclaration (c : Content) : Bool :=
  match c.kind with
  | .doctype | .comment | .cdata | .instruction => true
  | _ => false

namespace Token

/-- A comment that does not end early is read as it is. -/
theorem properComment_append {value : List Char} (h : ¬ ['-', '-', '>'] <:+: value)
    (hgt : ¬ ['>'] <+: value) (hdash : ¬ ['-', '>'] <+: value) (rest : List Char) :
    properComment (value ++ ['-', '-', '>'] ++ rest) = (.comment (String.ofList value), rest) := by
  have hbreak : breakOn? ['-', '-', '>'] (value ++ ['-', '-', '>'] ++ rest) = some (value, rest) :=
    breakOn?_append (by decide : '>' ∉ ['-', '-']) h rest
  unfold properComment
  split
  · next heq =>
    refine absurd ?_ hgt
    cases value with
    | nil => simp at heq
    | cons c value => simp [(List.cons.inj heq).1]
  · next heq =>
    refine absurd ?_ hdash
    cases value with
    | nil => simp at heq
    | cons c value =>
      cases value with
      | nil => simp at heq
      | cons d value =>
        simp only [List.cons_append, List.cons.injEq] at heq
        simp [heq.1, heq.2.1]
  · rw [hbreak]

theorem declaration_comment {value : List Char} (h : ¬ ['-', '-', '>'] <:+: value)
    (hgt : ¬ ['>'] <+: value) (hdash : ¬ ['-', '>'] <+: value) (rest : List Char) :
    declaration ('-' :: '-' :: (value ++ ['-', '-', '>'] ++ rest)) =
      (.comment (String.ofList value), rest) := by
  rw [declaration, show ('-' :: '-' :: (value ++ ['-', '-', '>'] ++ rest) : List Char) =
    ['-', '-'] ++ (value ++ ['-', '-', '>'] ++ rest) from rfl, isPrefixOf?_append]
  exact properComment_append h hgt hdash rest

/-- A doctype is read as it is. -/
theorem declaration_doctype {value : List Char} (hgt : '>' ∉ value)
    (h : (afterIgnoringCase? "doctype".toList value).isSome = true) (rest : List Char) :
    declaration (value ++ '>' :: rest) = (.doctype (String.ofList value), rest) := by
  obtain ⟨after, hafter⟩ := Option.isSome_iff_exists.mp h
  have hdash : ['-', '-'].isPrefixOf? (value ++ '>' :: rest) = none := by
    cases value with
    | nil => simp [afterIgnoringCase?] at h
    | cons c value =>
      have hc : c ≠ '-' := by
        rintro rfl
        simp [afterIgnoringCase?] at h
      exact isPrefixOf?_cons_of_ne hc.symm ['-'] _
  rw [declaration, hdash, afterIgnoringCase?_append_of_some hafter]
  simp only
  rw [breakOnChar?_append hgt]

/-- A section of character data is read as it is. -/
theorem declaration_cdata {value : List Char} (h : ¬ [']', ']', '>'] <:+: value)
    (rest : List Char) :
    declaration ("[CDATA[".toList ++ (value ++ [']', ']', '>'] ++ rest)) =
      (.cdata (String.ofList value), rest) := by
  have hbreak : breakOn? [']', ']', '>'] (value ++ [']', ']', '>'] ++ rest) = some (value, rest) :=
    breakOn?_append (by decide : '>' ∉ [']', ']']) h rest
  have hdash : ['-', '-'].isPrefixOf?
      ("[CDATA[".toList ++ (value ++ [']', ']', '>'] ++ rest)) = none := rfl
  have hdoctype : afterIgnoringCase? "doctype".toList
      ("[CDATA[".toList ++ (value ++ [']', ']', '>'] ++ rest)) = none := rfl
  rw [declaration, hdash, hdoctype, isPrefixOf?_append]
  simp only
  rw [hbreak]

/-- **A comment, character data, an instruction or a doctype is read as it was written.** -/
theorem plain?_writeLeaf {c : Content} (hc : c.isDeclaration = true) (h : c.Spelled)
    (rest : List Char) :
    plain? (c.writeLeaf ++ rest) = some (c.leafToken, rest) := by
  unfold Content.isDeclaration at hc
  unfold Content.Spelled at h
  unfold Content.writeLeaf Content.leafToken
  split at hc
  · next hkind =>
    rw [hkind] at h ⊢
    simpa [plain?, afterAngle] using declaration_doctype h.1 h.2 rest
  · next hkind =>
    rw [hkind] at h ⊢
    simpa [plain?, afterAngle] using declaration_comment h.1 h.2.1 h.2.2 rest
  · next hkind =>
    rw [hkind] at h ⊢
    simpa [plain?, afterAngle] using declaration_cdata h rest
  · next hkind =>
    rw [hkind] at h ⊢
    have hgt : '>' ∉ c.value.toList := h
    have hbreak := breakOnChar?_append hgt rest
    simp [plain?, afterAngle, hbreak]
  · cases hc

/-- **A declaration is read as it is**, whatever follows it. -/
theorem next?_writeLeaf {c : Content} (hc : c.isDeclaration = true) (h : c.Spelled)
    (rest : List Char) : next? none (c.writeLeaf ++ rest) = some (c.leafToken, rest) := by
  have hdrop : dropEmptyEndTags (c.writeLeaf ++ rest) = c.writeLeaf ++ rest := by
    unfold Content.isDeclaration at hc
    unfold Content.writeLeaf
    split at hc
    · simp [dropEmptyEndTags]
    · simp [dropEmptyEndTags]
    · simp [dropEmptyEndTags]
    · simp [dropEmptyEndTags]
    · cases hc
  rw [show next? none (c.writeLeaf ++ rest) = plain? (dropEmptyEndTags (c.writeLeaf ++ rest))
    from rfl, hdrop, plain?_writeLeaf hc h]

end Token

/-! ## Escaped texts -/

/-- No `<` in the text begins markup, as far as the text itself goes. -/
def IsPlain (cs : List Char) : Prop :=
  cs.IsChain fun a b => a = '<' → beginsMarkup b = false

theorem IsPlain.dropWhile {c : Char} {cs : List Char} (h : IsPlain (c :: cs)) (p : Char → Bool) :
    IsPlain (cs.dropWhile p) :=
  List.IsChain.suffix h ((List.dropWhile_suffix p).trans (List.suffix_cons c cs))

/-- The first character of an escaped text begins markup only if that of the text does. -/
theorem beginsMarkup_head?_escapeChars {cs : List Char} (h : cs.head?.any beginsMarkup = false) :
    ∀ c ∈ (escapeChars cs).head?, beginsMarkup c = false := by
  cases cs with
  | nil => simp [escapeChars]
  | cons d cs =>
    rw [escapeChars]
    split
    · intro c hc
      cases hc
      decide
    · intro c hc
      cases hc
      simpa using h

/-- Escaping leaves no `<` that begins markup. -/
theorem isPlain_escapeChars (cs : List Char) : IsPlain (escapeChars cs) := by
  induction cs with
  | nil => exact List.IsChain.nil
  | cons c cs ih =>
    rw [escapeChars]
    split
    · refine List.IsChain.cons_cons (by decide) (List.IsChain.cons_cons (by decide)
        (List.IsChain.cons_cons (by decide) (ih.cons ?_)))
      intro _ _ heq
      cases heq
    · next hescape =>
      refine ih.cons fun d hd hc => ?_
      refine beginsMarkup_head?_escapeChars ?_ d hd
      simpa [hc] using hescape

/-- Escaping keeps at least one character of a text. -/
theorem escapeChars_ne_nil {cs : List Char} (h : cs ≠ []) : escapeChars cs ≠ [] := by
  cases cs with
  | nil => exact absurd rfl h
  | cons c cs =>
    rw [escapeChars]
    split
    · simp
    · simp

/-- Escaping changes no whitespace, and adds none. -/
theorem all_isSpace_escapeChars (cs : List Char) :
    (escapeChars cs).all isSpace = cs.all isSpace := by
  induction cs with
  | nil => rfl
  | cons c cs ih =>
    rw [escapeChars]
    split
    · next h =>
      have hc : c = '<' := by
        simp only [Bool.and_eq_true, beq_iff_eq] at h
        exact h.1
      simp [hc, isSpace]
    · rw [List.all_cons, List.all_cons, ih]

namespace Token

/-- In a plain text nothing is an end tag without a name. -/
theorem dropEmptyEndTags_of_isPlain {c : Char} {cs rest : List Char} (h : IsPlain (c :: cs))
    (hrest : rest.head?.all (· == '<') = true) :
    dropEmptyEndTags (c :: cs ++ rest) = c :: cs ++ rest := by
  rw [dropEmptyEndTags]
  intro tail heq
  obtain ⟨hc, htail⟩ := List.cons.inj heq
  cases cs with
  | nil =>
    have htail : rest = '/' :: '>' :: tail := htail
    rw [htail] at hrest
    simp at hrest
  | cons d cs =>
    have hd : d = '/' := (List.cons.inj htail).1
    have := (List.isChain_cons_cons.mp h).1 hc
    rw [hd] at this
    exact absurd this (by decide)

/-- A `<` that begins no markup is text, with what follows it. -/
theorem afterAngle_of_not_beginsMarkup {input : List Char}
    (h : ∀ c ∈ input.head?, beginsMarkup c = false) :
    afterAngle input =
      (ofText ('<' :: input.takeWhile (· != '<')), input.dropWhile (· != '<')) := by
  cases input with
  | nil => rfl
  | cons c input =>
    have hc : beginsMarkup c = false := h c rfl
    unfold afterAngle
    split
    · next heq =>
      rw [(List.cons.inj heq).1] at hc
      exact absurd hc (by decide)
    · next heq =>
      rw [(List.cons.inj heq).1] at hc
      exact absurd hc (by decide)
    · next heq =>
      rw [(List.cons.inj heq).1] at hc
      exact absurd hc (by decide)
    · next heq =>
      obtain ⟨rfl, rfl⟩ := List.cons.inj heq
      rw [if_neg]
      simp only [beginsMarkup, Bool.or_eq_false_iff] at hc
      simp [hc.1.1.1]
    · next heq => cases heq

/-- **A plain text is read piece by piece**, each piece up to the next `<`. -/
theorem plain?_of_isPlain {c : Char} {cs rest : List Char} (h : IsPlain (c :: cs))
    (hrest : rest.head?.all (· == '<') = true) :
    plain? (c :: cs ++ rest) =
      some (ofText (c :: cs.takeWhile (· != '<')), cs.dropWhile (· != '<') ++ rest) := by
  have hstop : ∀ d ∈ rest.head?, (d != '<') = false := by
    intro d hd
    rw [Option.mem_def.mp hd] at hrest
    simpa using hrest
  have htake := takeWhile_append_of_stop cs hstop
  have hdrop := dropWhile_append_of_stop cs hstop
  by_cases hc : c = '<'
  · subst hc
    have hhead : ∀ d ∈ (cs ++ rest).head?, beginsMarkup d = false := by
      intro d hd
      cases cs with
      | nil =>
        have := hstop d hd
        have hd' : d = '<' := by simpa using this
        rw [hd']
        decide
      | cons e cs =>
        cases hd
        exact (List.isChain_cons_cons.mp h).1 rfl
    rw [List.cons_append, plain?, afterAngle_of_not_beginsMarkup hhead, htake, hdrop]
  · have hne : (c != '<') = true := by simpa using hc
    have hinput : plain? (c :: (cs ++ rest)) =
        some (ofText ((c :: (cs ++ rest)).takeWhile (· != '<')),
          (c :: (cs ++ rest)).dropWhile (· != '<')) := by
      unfold plain?
      split
      · next heq => cases heq
      · next heq => exact absurd (List.cons.inj heq).1 hc
      · rfl
    rw [List.cons_append, hinput, List.takeWhile_cons, List.dropWhile_cons, if_pos hne, if_pos hne,
      htake, hdrop]

/-- Plain text is read up to the next bracket. -/
theorem next?_of_isPlain {c : Char} {cs rest : List Char} (h : IsPlain (c :: cs))
    (hrest : rest.head?.all (· == '<') = true) :
    next? none (c :: cs ++ rest) =
      some (ofText (c :: cs.takeWhile (· != '<')), cs.dropWhile (· != '<') ++ rest) := by
  rw [show next? none (c :: cs ++ rest) = plain? (dropEmptyEndTags (c :: cs ++ rest)) from rfl,
    dropEmptyEndTags_of_isPlain h hrest, plain?_of_isPlain h hrest]

/-! ## Raw text -/

/-- The names of raw text elements hold letters only. -/
theorem isAlpha_of_isRawText {tag : String} (h : Tag.isRawText tag = true) :
    ∀ c ∈ tag.toList, c.toLower.isAlpha = true := by
  have htable : ∀ name ∈ Tag.rawTextElements, name.toList.all Char.isAlpha = true := by decide
  intro c hc
  have hletters := htable (lower tag) (by simpa [Tag.isRawText, inTable] using h)
  refine List.all_eq_true.mp hletters c.toLower ?_
  simp only [lower, String.toList_ofList]
  exact List.mem_map_of_mem hc

/-- The end of a raw text is not found before its end tag. -/
theorem endsRawText_append_eq_false {tag : String} (htag : Tag.isRawText tag = true) {c : Char}
    {text : List Char} (h : endsRawElement tag (c :: text) = false) (rest : List Char) :
    endsRawText tag (c :: text ++ '<' :: rest) = false := by
  unfold endsRawText
  split
  · next after heq =>
    cases text with
    | nil => simp at heq
    | cons d text =>
      simp only [List.cons_append, List.cons.injEq] at heq
      obtain ⟨rfl, rfl, htext⟩ := heq
      simp only [endsRawElement] at h
      cases hmatch : afterIgnoringCase? tag.toList text with
      | none =>
        rw [← htext,
          afterIgnoringCase?_append_of_none (isAlpha_of_isRawText htag) (by decide) hmatch]
      | some found =>
        rw [← htext, afterIgnoringCase?_append_of_some hmatch]
        rw [hmatch] at h
        cases found with
        | nil => rfl
        | cons e found => exact h
  · rfl

/-- **Raw text is read up to its end tag.** -/
theorem rawText_append_writeEnd {tag : String} (htag : Tag.isRawText tag = true)
    {text : List Char} (h : IsRawText tag text) (rest : List Char) :
    rawText tag (text ++ ((writeEnd tag).toList ++ rest)) =
      (text, (writeEnd tag).toList ++ rest) := by
  have hend : (writeEnd tag).toList ++ rest = '<' :: '/' :: (tag.toList ++ '>' :: rest) := by
    simp [writeEnd]
  rw [hend]
  induction text with
  | nil =>
    rw [List.nil_append, rawText, if_pos]
    rw [endsRawText, afterIgnoringCase?_self]
    rfl
  | cons c text ih =>
    have hhere : endsRawElement tag (c :: text) = false := h _ (by simp)
    have hlater : IsRawText tag text := by
      intro tail htail
      refine h tail ?_
      simp only [List.mem_tails] at htail ⊢
      exact htail.trans (List.suffix_cons c text)
    have hnot := endsRawText_append_eq_false htag hhere ('/' :: (tag.toList ++ '>' :: rest))
    rw [List.cons_append] at hnot ⊢
    rw [rawText, if_neg (by rw [hnot]; decide), ih hlater]

end Token

end HtmlMinify
