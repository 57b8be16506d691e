import HtmlMinify.Proofs.Scan
import HtmlMinify.Proofs.Spelling

/-!
# Tags are read as they were written

A start tag that was written from a name and attributes that can stand in one is read back as the
same name, attributes and closing, and reading stops right after it, whatever follows. The scanner
for attributes is described by one equation for each way the input can go on; the written list is
then read one attribute at a time.

## Main statements

* `StartTag.readAttribute?_write`: one attribute, in any of its four written forms.
* `Token.plain?_writeStart`: a whole start tag.
* `Token.next?_writeEnd`: an end tag.
-/

namespace HtmlMinify

open Text

/-! ## Characters of names -/

theorem isSpace_eq_false {c : Char} (h : endsName c = false) : isSpace c = false := by
  simp only [endsName, Bool.or_eq_false_iff] at h
  exact h.1.1

theorem ne_slash_of_endsName {c : Char} (h : endsName c = false) : c ≠ '/' := by
  rintro rfl
  simp [endsName] at h

theorem ne_gt_of_endsName {c : Char} (h : endsName c = false) : c ≠ '>' := by
  rintro rfl
  simp [endsName] at h

/-- The characters that an attribute name is read from. -/
theorem Attribute.IsName.exists_cons {name : String} (h : Attribute.IsName name) :
    ∃ first more, name.toList = first :: more ∧ endsName first = false ∧
      ∀ c ∈ more, StartTag.inAttributeName c = true := by
  obtain ⟨hne, hall, heq⟩ := h
  cases hname : name.toList with
  | nil => exact absurd hname hne
  | cons first more =>
    rw [hname] at hall heq
    refine ⟨first, more, rfl, hall first (by simp), fun c hc => ?_⟩
    have hc' : c ≠ '=' := by
      rintro rfl
      exact heq hc
    simp [StartTag.inAttributeName, hall c (by simp [hc]), hc']

namespace StartTag

/-! ## The attribute scanner, case by case -/

/-- A bracket ends the attributes. -/
theorem readAttributes?_of_gt {found : List Attribute} {input rest : List Char}
    (h : input.dropWhile isSpace = '>' :: rest) :
    readAttributes? found input = some (found, false, rest) := by
  rw [readAttributes?]
  split <;> simp_all

/-- A slash and a bracket end the attributes, and the tag closes itself. -/
theorem readAttributes?_of_slash_gt {found : List Attribute} {input rest : List Char}
    (h : input.dropWhile isSpace = '/' :: '>' :: rest) :
    readAttributes? found input = some (found, true, rest) := by
  rw [readAttributes?]
  split <;> simp_all

/-- A character that can stand in a name begins an attribute. -/
theorem readAttributes?_of_name {found : List Attribute} {input rest : List Char} {c : Char}
    (h : input.dropWhile isSpace = c :: rest) (hc : endsName c = false) :
    readAttributes? found input =
      match readAttribute? c rest with
      | some (a, unread) => readAttributes? (a :: found) unread
      | none => none := by
  have hgt := ne_gt_of_endsName hc
  have hslash := ne_slash_of_endsName hc
  conv_lhs => rw [readAttributes?]
  split
  · next heq =>
    rw [h] at heq
    cases heq
  · next heq =>
    rw [h] at heq
    exact absurd (List.cons.inj heq).1 hgt
  · next heq =>
    rw [h] at heq
    exact absurd (List.cons.inj heq).1 hslash
  · next heq =>
    rw [h] at heq
    exact absurd (List.cons.inj heq).1 hslash
  · next c' rest' _ _ _ heq =>
    rw [h] at heq
    obtain ⟨rfl, rfl⟩ := List.cons.inj heq
    split
    · next ha => rw [ha]
    · next ha => rw [ha]

/-! ## Values -/

/-- A text in quotes is read up to the closing one. -/
theorem readValue?_quoted {quote : Char} (hquote : quote = '\x22' ∨ quote = '\x27')
    {value : List Char} (h : quote ∉ value) (rest : List Char) :
    readValue? (quote :: value ++ quote :: rest) = some (String.ofList value, rest) := by
  have hspace : isSpace quote = false := by rcases hquote with rfl | rfl <;> decide
  have htest : (quote == '\x22' || quote == '\x27') = true := by
    rcases hquote with rfl | rfl <;> decide
  rw [readValue?, List.cons_append, List.dropWhile_cons, if_neg (by simp [hspace])]
  simp only [htest, if_true]
  rw [breakOnChar?_append h]

/-- Escaping leaves no double quote. -/
theorem not_mem_flatMap_escapeQuote (value : List Char) :
    '\x22' ∉ value.flatMap escapeQuote := by
  intro hmem
  obtain ⟨c, _, hc⟩ := List.mem_flatMap.mp hmem
  unfold escapeQuote at hc
  split at hc
  · revert hc
    decide
  · next hne =>
    rw [List.mem_singleton] at hc
    subst hc
    simp at hne

/-- A value without double quotes needs no escape. -/
theorem flatMap_escapeQuote {value : List Char} (h : '\x22' ∉ value) :
    value.flatMap escapeQuote = value := by
  induction value with
  | nil => rfl
  | cons c value ih =>
    have hc : c ≠ '\x22' := fun hc => h (by simp [hc])
    have hvalue : '\x22' ∉ value := fun hm => h (by simp [hm])
    rw [List.flatMap_cons, ih hvalue, escapeQuote, if_neg (by simpa using hc)]
    rfl

/-- A value in quotes is read back, with its double quotes escaped if it holds both kinds. -/
theorem readValue?_quoteValue (value : String) (rest : List Char) :
    readValue? ((quoteValue value).toList ++ rest) =
      some (Attribute.valueAsRead value, rest) := by
  unfold quoteValue Attribute.valueAsRead
  by_cases hdouble : '\x22' ∈ value.toList
  · by_cases hsingle : '\x27' ∈ value.toList
    · rw [if_neg (by simp [hsingle]), if_pos (by simp [hdouble, hsingle])]
      simpa using readValue?_quoted (.inl rfl) (not_mem_flatMap_escapeQuote value.toList) rest
    · rw [if_pos (by simp [hdouble, hsingle]), if_neg (by simp [hsingle])]
      simpa using readValue?_quoted (.inr rfl) hsingle rest
  · rw [if_neg (by simp [hdouble]), if_neg (by simp [hdouble]), flatMap_escapeQuote hdouble]
    simpa using readValue?_quoted (.inl rfl) hdouble rest

/-- A value that does without quotes is read up to the whitespace or `>` after it. -/
theorem readValue?_unquoted {value : String} (h : canUnquote value = true) {rest : List Char}
    (hrest : ∀ c ∈ rest.head?, inBareValue c = false) :
    readValue? (value.toList ++ rest) = some (value, rest) := by
  simp only [canUnquote, Bool.and_eq_true, Bool.not_eq_true', List.any_eq_false] at h
  obtain ⟨hne, hall⟩ := h
  have hplain : ∀ c ∈ value.toList, inBareValue c = true ∧ (c == '\x22' || c == '\x27') = false ∧
      isSpace c = false := by
    intro c hc
    have := hall c hc
    simp only [needsQuotes, Bool.or_eq_true, not_or, Bool.not_eq_true] at this
    obtain ⟨⟨⟨⟨⟨⟨hspace, hd⟩, hs⟩, _⟩, _⟩, hgt⟩, _⟩ := this
    refine ⟨?_, by simp [hd, hs], hspace⟩
    simp only [beq_eq_false_iff_ne, ne_eq] at hgt
    simp [inBareValue, hspace, hgt]
  cases hvalue : value.toList with
  | nil =>
    have : value = "" := by rw [← String.toList_inj, hvalue]; rfl
    subst this
    simp at hne
  | cons c cs =>
    have hc := hplain c (by rw [hvalue]; simp)
    have hrun : ∀ d ∈ c :: cs, inBareValue d = true := fun d hd =>
      (hplain d (by rw [hvalue]; exact hd)).1
    rw [readValue?, List.cons_append, List.dropWhile_cons, if_neg (by simp [hc.2.2])]
    simp only [hc.2.1, Bool.false_eq_true, if_false]
    rw [← List.cons_append, takeWhile_append_stop hrun hrest, dropWhile_append_stop hrun hrest,
      ← hvalue, String.ofList_toList]

/-! ## One attribute -/

/-- What may follow an attribute: something that ends its name, ends its value if that has no
quotes, and is not read as its value if it has none. -/
structure Follows (options : WriteOptions) (a : Attribute) (rest : List Char) : Prop where
  ends : rest.head?.any endsName = true
  ends_value : ∀ value, a.value = some value → writesBare options value = true →
    ∀ c ∈ rest.head?, inBareValue c = false
  no_value : a.writesNoValue options = true → (rest.dropWhile isSpace).head? ≠ some '='

/-- A name without a value is read as such. -/
theorem readAttribute?_no_value {name : String} {first : Char} {more rest : List Char}
    (hname : name.toList = first :: more) (hmore : ∀ c ∈ more, inAttributeName c = true)
    (hends : rest.head?.any endsName = true)
    (hvalue : (rest.dropWhile isSpace).head? ≠ some '=') :
    readAttribute? first (more ++ rest) = some (⟨name, none⟩, rest) := by
  have hrest : ∀ c ∈ rest.head?, inAttributeName c = false := by
    intro c hc
    rw [Option.mem_def] at hc
    rw [hc] at hends
    have : endsName c = true := by simpa using hends
    simp [inAttributeName, this]
  unfold readAttribute?
  rw [takeWhile_append_stop hmore hrest, dropWhile_append_stop hmore hrest, ← hname,
    String.ofList_toList]
  simp only
  split
  · next heq => exact absurd (by rw [heq]; rfl) hvalue
  · rfl

/-- A name with a value is read as such, if the value is. -/
theorem readAttribute?_value {name value : String} {first : Char} {more written rest : List Char}
    (hname : name.toList = first :: more) (hmore : ∀ c ∈ more, inAttributeName c = true)
    (hvalue : readValue? (written ++ rest) = some (value, rest)) :
    readAttribute? first (more ++ '=' :: written ++ rest) = some (⟨name, some value⟩, rest) := by
  have hstop : ∀ c ∈ ('=' :: (written ++ rest)).head?, inAttributeName c = false := by
    intro c hc
    cases hc
    decide
  unfold readAttribute?
  rw [List.append_assoc, List.cons_append, takeWhile_append_stop hmore hstop,
    dropWhile_append_stop hmore hstop, ← hname, String.ofList_toList]
  simp only [List.dropWhile_cons, show isSpace '=' = false from by decide, Bool.false_eq_true,
    if_false]
  rw [hvalue]

/-- **An attribute is read as it was written**, up to what may follow it. -/
theorem readAttribute?_write {options : WriteOptions} {a : Attribute} {first : Char}
    {more rest : List Char} (hname : a.name.toList = first :: more)
    (hmore : ∀ c ∈ more, inAttributeName c = true) (hrest : Follows options a rest) :
    readAttribute? first (more ++ (writeValue options a.value).toList ++ rest) =
      some (a.asRead options, rest) := by
  obtain ⟨name, value⟩ := a
  cases value with
  | none =>
    rw [writeValue, show ("" : String).toList = [] from rfl, List.append_nil]
    exact readAttribute?_no_value hname hmore hrest.ends (hrest.no_value rfl)
  | some value =>
    simp only [writeValue, Attribute.asRead]
    by_cases hempty : (options.omitQuotes && value.isEmpty) = true
    · rw [if_pos hempty, if_pos hempty, show ("" : String).toList = [] from rfl, List.append_nil]
      exact readAttribute?_no_value hname hmore hrest.ends (hrest.no_value hempty)
    · rw [if_neg hempty, if_neg hempty]
      by_cases hbare : writesBare options value = true
      · have hcan : canUnquote value = true := by
          simp only [writesBare, Bool.and_eq_true] at hbare
          exact hbare.2
        have hread : Attribute.valueAsRead value = value := by
          refine if_neg ?_
          simp only [canUnquote, Bool.and_eq_true, Bool.not_eq_true', List.any_eq_false] at hcan
          intro hboth
          simp only [Bool.and_eq_true, List.contains_iff_mem] at hboth
          exact hcan.2 _ hboth.1 (by decide)
        rw [if_pos hbare, hread, String.toList_append]
        exact readAttribute?_value hname hmore
          (readValue?_unquoted hcan (hrest.ends_value value rfl hbare))
      · rw [if_neg hbare, String.toList_append]
        exact readAttribute?_value hname hmore (readValue?_quoteValue value rest)

/-! ## Attribute lists -/

/-- Another attribute follows one, unless it would be read as its value. -/
theorem follows_write {options : WriteOptions} {a b : Attribute} (hb : Attribute.IsName b.name)
    (hchain : a.writesNoValue options = true → b.beginsWithEq = false) (rest : List Char) :
    Follows options a ((b.write options).toList ++ rest) := by
  obtain ⟨first, more, hname, hfirst, _⟩ := hb.exists_cons
  have hcs : (b.write options).toList ++ rest =
      ' ' :: first :: (more ++ ((writeValue options b.value).toList ++ rest)) := by
    simp [Attribute.write, hname]
  rw [hcs]
  refine ⟨rfl, ?_, fun ha => ?_⟩
  · intro _ _ _ c hc
    cases hc
    decide
  · have hne := hchain ha
    rw [Attribute.beginsWithEq, hname] at hne
    have hspace := isSpace_eq_false hfirst
    simpa [List.dropWhile_cons, hspace, show isSpace ' ' = true from rfl] using hne

/-- The scanner takes a written list one attribute at a time. -/
theorem readAttributes?_flatMap_write {options : WriteOptions} {as : List Attribute}
    (hnames : ∀ a ∈ as, Attribute.IsName a.name)
    (hchain : as.IsChain fun a b => a.writesNoValue options = true → b.beginsWithEq = false)
    {tail : List Char} (htail : ∀ a ∈ as.getLast?, Follows options a tail)
    (found : List Attribute) :
    readAttributes? found (as.flatMap (fun a => (a.write options).toList) ++ tail) =
      readAttributes? ((as.map (·.asRead options)).reverse ++ found) tail := by
  induction as generalizing found with
  | nil => rfl
  | cons a as ih =>
    obtain ⟨first, more, hname, hfirst, hmore⟩ := (hnames a (by simp)).exists_cons
    have hrest : Follows options a
        (as.flatMap (fun a => (a.write options).toList) ++ tail) := by
      cases as with
      | nil => exact htail a (by simp)
      | cons b as =>
        rw [List.flatMap_cons, List.append_assoc]
        exact follows_write (hnames b (by simp)) (List.isChain_cons_cons.mp hchain).1 _
    have hinput : ((a :: as).flatMap (fun a => (a.write options).toList) ++ tail).dropWhile isSpace
        = first :: (more ++ (writeValue options a.value).toList ++
            (as.flatMap (fun a => (a.write options).toList) ++ tail)) := by
      simp [Attribute.write, hname, isSpace_eq_false hfirst,
        show isSpace ' ' = true from rfl]
    rw [readAttributes?_of_name hinput hfirst, readAttribute?_write hname hmore hrest]
    simp only
    rw [ih (fun b hb => hnames b (by simp [hb])) hchain.of_cons fun b hb => htail b ?_]
    · simp
    · cases as with
      | nil => cases hb
      | cons c as => rwa [List.getLast?_cons_cons]

end StartTag

theorem toList_foldl_append (parts : List String) (before : String) :
    (parts.foldl (· ++ ·) before).toList = before.toList ++ parts.flatMap String.toList := by
  induction parts generalizing before with
  | nil => simp
  | cons part parts ih => rw [List.foldl_cons, ih]; simp

/-- Attributes are written one after the other. -/
theorem Attributes.toList_write (options : WriteOptions) (as : Attributes) :
    (as.write options).toList = as.toList.flatMap fun a => (a.write options).toList := by
  rw [Attributes.write, toList_foldl_append]
  simp [List.flatMap_map]

/-- A key that is not among those seen and differs from the one just seen is still new. -/
theorem Attributes.contains_insert_key {seen : Std.HashSet String} {a b : Attribute}
    {items : List Attribute} (ha : a.key ∉ items.map (·.key)) (hb : seen.contains b.key = false)
    (hmem : b ∈ items) : (seen.insert a.key).contains b.key = false := by
  have hne : a.key ≠ b.key := by
    intro heq
    exact ha (heq ▸ List.mem_map_of_mem hmem)
  rw [Std.HashSet.contains_insert, hb, Bool.or_false]
  simpa using hne

/-- A list with distinct keys has nothing to lose. -/
theorem Attributes.distinctAfter_eq_self {seen : Std.HashSet String} {items : List Attribute}
    (hnew : ∀ a ∈ items, seen.contains a.key = false) (h : (items.map (·.key)).Nodup) :
    distinctAfter seen items = items := by
  induction items generalizing seen with
  | nil => rfl
  | cons a items ih =>
    rw [List.map_cons, List.nodup_cons] at h
    rw [distinctAfter, if_neg (by simp [hnew a (by simp)]), ih ?_ h.2]
    intro b hb
    exact contains_insert_key h.1 (hnew b (by simp [hb])) hb

/-- Reading does not change the keys of attributes. -/
@[simp]
theorem Attribute.key_asRead (options : WriteOptions) (a : Attribute) :
    (a.asRead options).key = a.key := by
  unfold Attribute.asRead
  split <;> rfl

/-- Attributes that are distinct are all read. -/
theorem Attributes.ofList_asRead {options : WriteOptions} {as : Attributes}
    (h : (as.toList.map (·.key)).Nodup) :
    Attributes.ofList (as.toList.map (·.asRead options)) = as.asRead options := by
  rw [ofList, asRead, distinctAfter_eq_self (by simp)]
  rw [List.map_map]
  simpa [Function.comp_def] using h

/-! ## Tags -/

/-- What ends a start tag: a blank keeps `/` out of a value without quotes. -/
def Content.tagEnd (options : WriteOptions) (c : Content) : List Char :=
  if c.selfClosing then (if c.attributes.endsBare options then [' ', '/', '>'] else ['/', '>'])
  else ['>']

/-- **A start tag**: a bracket, the name, the attributes and the end of the tag. -/
theorem Content.toList_writeStart (options : WriteOptions) (c : Content) :
    (c.writeStart options).toList =
      '<' :: (c.name.toList ++ c.attributes.toList.flatMap (fun a => (a.write options).toList) ++
        c.tagEnd options) := by
  unfold writeStart tagEnd
  simp only [String.toList_append, Attributes.toList_write]
  split
  · split <;> simp
  · simp

/-- The end of a tag follows its last attribute. -/
theorem StartTag.follows_tagEnd {options : WriteOptions} {c : Content} {a : Attribute}
    (ha : a ∈ c.attributes.toList.getLast?) (rest : List Char) :
    Follows options a (c.tagEnd options ++ rest) := by
  unfold Content.tagEnd
  by_cases hself : c.selfClosing = true
  · by_cases hbare : c.attributes.endsBare options = true
    · rw [if_pos hself, if_pos hbare]
      refine ⟨rfl, ?_, fun _ => by simp [isSpace]⟩
      intro _ _ _ c hc
      cases hc
      decide
    · rw [if_pos hself, if_neg hbare]
      refine ⟨rfl, ?_, fun _ => by simp [isSpace]⟩
      intro value hvalue hwrites
      refine absurd ?_ hbare
      rw [Attributes.endsBare, Option.mem_def.mp ha]
      simpa [hvalue] using hwrites
  · rw [if_neg hself]
    refine ⟨rfl, ?_, fun _ => by simp [isSpace]⟩
    intro _ _ _ c hc
    cases hc
    decide

/-- The end of a tag ends the scan. -/
theorem StartTag.readAttributes?_tagEnd (options : WriteOptions) (c : Content)
    (found : List Attribute) (rest : List Char) :
    readAttributes? found (c.tagEnd options ++ rest) = some (found, c.selfClosing, rest) := by
  unfold Content.tagEnd
  by_cases hself : c.selfClosing = true
  · have hskip : ∀ blank : List Char, (∀ x ∈ blank, isSpace x = true) →
        (blank ++ '/' :: '>' :: rest).dropWhile isSpace = '/' :: '>' :: rest := by
      intro blank hblank
      rw [dropWhile_append_stop hblank]
      intro x hx
      cases hx
      decide
    rw [if_pos hself, hself]
    split
    · exact readAttributes?_of_slash_gt (hskip [' '] (by simp [isSpace]))
    · exact readAttributes?_of_slash_gt (hskip [] (by simp))
  · rw [if_neg hself, Bool.eq_false_iff.mpr hself]
    exact readAttributes?_of_gt rfl

/-- A name begins with a letter. -/
theorem Tag.IsName.exists_cons {name : String} (h : Tag.IsName name) :
    ∃ first more, name.toList = first :: more ∧ first.isAlpha = true := by
  cases hname : name.toList with
  | nil => simp [Tag.IsName, hname] at h
  | cons first more =>
    refine ⟨first, more, rfl, ?_⟩
    simpa [hname] using h.1

/-- A tag name is read up to what ends it. -/
theorem Tag.IsName.takeWhile_append {name : String} (h : Tag.IsName name) (rest : List Char)
    (hrest : rest.head?.all endsName = true) :
    (name.toList ++ rest).takeWhile (!endsName ·) = name.toList ∧
      (name.toList ++ rest).dropWhile (!endsName ·) = rest := by
  have hstop : ∀ c ∈ rest.head?, (!endsName c) = false := by
    intro c hc
    rw [Option.mem_def.mp hc] at hrest
    simpa using hrest
  have hname : ∀ c ∈ name.toList, (!endsName c) = true := by
    intro c hc
    simp [h.2 c hc]
  exact ⟨takeWhile_append_stop hname hstop, dropWhile_append_stop hname hstop⟩

/-- A letter after `<` begins a start tag. -/
theorem Token.afterAngle_of_alpha {input : List Char} (h : input.head?.any Char.isAlpha = true) :
    afterAngle input =
      match StartTag.read? input with
      | some (tag, rest) => (.startTag tag, rest)
      | none => (ofText ('<' :: input), []) := by
  cases input with
  | nil => simp at h
  | cons c input =>
    have hc : c.isAlpha = true := by simpa using h
    unfold afterAngle
    split
    · next heq =>
      rw [(List.cons.inj heq).1] at hc
      exact absurd hc (by decide)
    · next heq =>
      rw [(List.cons.inj heq).1] at hc
      exact absurd hc (by decide)
    · next heq =>
      rw [(List.cons.inj heq).1] at hc
      exact absurd hc (by decide)
    · next heq =>
      rw [(List.cons.inj heq).1] at hc
      exact if_pos hc
    · next heq => cases heq

/-- A letter after `</` begins an end tag. -/
theorem Token.closing_of_alpha {body : List Char} (h : body.head?.any Char.isAlpha = true) :
    closing body =
      match breakOnChar? '>' (body.dropWhile (!endsName ·)) with
      | some (_, rest) => (.endTag (String.ofList (body.takeWhile (!endsName ·))), rest)
      | none => (ofText ('<' :: '/' :: body), []) := by
  cases body with
  | nil => simp at h
  | cons c body =>
    have hc : c.isAlpha = true := by simpa using h
    rw [closing]
    exact if_pos hc

/-- Attributes, and the end of a tag, end the tag name. -/
theorem Content.endsName_head?_attributes (options : WriteOptions) (c : Content)
    (rest : List Char) :
    (c.attributes.toList.flatMap (fun a => (a.write options).toList) ++
      (c.tagEnd options ++ rest)).head?.all endsName = true := by
  cases c.attributes.toList with
  | nil =>
    unfold Content.tagEnd
    split
    · split <;> rfl
    · rfl
  | cons a as => simp [Attribute.write, endsName, isSpace]

/-- **A start tag is read as it was written.** -/
theorem Token.plain?_writeStart {options : WriteOptions} {c : Content}
    (hname : Tag.IsName c.name) (has : c.attributes.Named)
    (hseparate : c.attributes.Separate options) (rest : List Char) :
    plain? ((c.writeStart options).toList ++ rest) =
      some (.startTag ⟨c.name, c.attributes.asRead options, c.selfClosing⟩, rest) := by
  obtain ⟨hnames, hkeys⟩ := has
  obtain ⟨first, more, hfirst, halpha⟩ := hname.exists_cons
  have hread := StartTag.readAttributes?_flatMap_write hnames hseparate
    (fun a ha => StartTag.follows_tagEnd ha rest) []
  rw [StartTag.readAttributes?_tagEnd, List.append_nil] at hread
  obtain ⟨htake, hdrop⟩ := hname.takeWhile_append _ (c.endsName_head?_attributes options rest)
  rw [Content.toList_writeStart]
  simp only [List.cons_append, List.append_assoc, plain?]
  rw [afterAngle_of_alpha (by simp [hfirst, halpha]), StartTag.read?, htake, hdrop, hread]
  simp only [List.reverse_reverse, String.ofList_toList, Attributes.ofList_asRead hkeys]

/-- A start tag is no end tag without a name. -/
theorem Token.dropEmptyEndTags_writeStart (options : WriteOptions) {c : Content}
    (hname : Tag.IsName c.name) (rest : List Char) :
    dropEmptyEndTags ((c.writeStart options).toList ++ rest) =
      (c.writeStart options).toList ++ rest := by
  obtain ⟨first, more, hfirst, halpha⟩ := hname.exists_cons
  rw [Content.toList_writeStart, hfirst]
  simp only [List.cons_append]
  rw [dropEmptyEndTags]
  intro tail heq
  simp only [List.cons.injEq, true_and] at heq
  rw [heq.1] at halpha
  exact absurd halpha (by decide)

/-- **An end tag is read by its name**, whatever else stands in it. -/
theorem Token.next?_endTag {name : String} (hname : Tag.IsName name)
    {after skipped rest : List Char} (hends : after.head?.all endsName = true)
    (hbreak : breakOnChar? '>' after = some (skipped, rest)) :
    next? none ('<' :: '/' :: (name.toList ++ after)) = some (.endTag name, rest) := by
  obtain ⟨first, more, hfirst, halpha⟩ := hname.exists_cons
  obtain ⟨htake, hdrop⟩ := hname.takeWhile_append after hends
  have hkeep : dropEmptyEndTags ('<' :: '/' :: (name.toList ++ after)) =
      '<' :: '/' :: (name.toList ++ after) := by
    rw [hfirst, List.cons_append, dropEmptyEndTags]
    intro tail heq
    simp only [List.cons.injEq, true_and] at heq
    rw [heq.1] at halpha
    exact absurd halpha (by decide)
  rw [show next? none ('<' :: '/' :: (name.toList ++ after)) =
    plain? (dropEmptyEndTags ('<' :: '/' :: (name.toList ++ after))) from rfl, hkeep, plain?,
    afterAngle, closing_of_alpha (by simp [hfirst, halpha]), htake, hdrop, hbreak]
  simp

/-- **An end tag is read as it is**, whatever follows it. -/
theorem Token.next?_writeEnd {name : String} (hname : Tag.IsName name) (rest : List Char) :
    next? none ((writeEnd name).toList ++ rest) = some (.endTag name, rest) := by
  rw [show (writeEnd name).toList ++ rest = '<' :: '/' :: (name.toList ++ '>' :: rest) by
    simp [writeEnd]]
  exact next?_endTag hname rfl rfl

end HtmlMinify
