import HtmlMinify.Proofs.Steps

/-!
# What can be told from a tag that was read back

The converse of `Token.plain?_writeStart` and `Token.rawText_append_writeEnd`. If the attributes of a
written tag are read as they were, then none of them was taken for the value of another. And where a
raw text is followed by its end tag, reading stops there or at an end tag of the same name before it.

## Main statements

* `StartTag.isChain_of_readAttributes?`, `Token.next?_writeStart_cases`: start tags.
* `Token.rawText_append_of_endsRawText`, `Token.next?_of_endsRawText`: raw texts and their end tags.
-/

namespace HtmlMinify

open Text

/-! ## Attributes -/

/-- The first attributes of a list stay, if their keys are distinct. -/
theorem Attributes.prefix_distinctAfter {seen : Std.HashSet String} {items : List Attribute}
    (hnew : ∀ a ∈ items, seen.contains a.key = false) (h : (items.map (·.key)).Nodup)
    (more : List Attribute) : items <+: distinctAfter seen (items ++ more) := by
  induction items generalizing seen with
  | nil => exact List.nil_prefix
  | cons a items ih =>
    rw [List.map_cons, List.nodup_cons] at h
    rw [List.cons_append, distinctAfter, if_neg (by simp [hnew a (by simp)]),
      List.prefix_cons_inj]
    exact ih (fun b hb => contains_insert_key h.1 (hnew b (by simp [hb])) hb) h.2

namespace StartTag

/-- The attributes found before are kept. -/
theorem suffix_of_readAttributes? {found result : List Attribute} {input rest : List Char}
    {selfClosing : Bool} (h : readAttributes? found input = some (result, selfClosing, rest)) :
    found <:+ result := by
  fun_induction readAttributes? found input with
  | case1 => cases h
  | case2 =>
    cases h
    exact List.suffix_rfl
  | case3 =>
    cases h
    exact List.suffix_rfl
  | case4 found input after heq _ ih => exact ih h
  | case5 found input c after _ _ _ heq a unread ha ih =>
    exact (List.suffix_cons a found).trans (ih h)
  | case6 => simp_all

/-- An attribute that was found first under its key is the one that stays. -/
theorem eq_of_distinctAfter {found result as : List Attribute} {a a' : Attribute}
    (hsuffix : a' :: found <:+ result) (hkey : a'.key = a.key)
    (hsame : Attributes.distinctAfter ∅ result.reverse = found.reverse ++ a :: as) : a' = a := by
  obtain ⟨more, rfl⟩ := hsuffix
  have hnodup := (Attributes.nodup_distinctAfter ∅ (more ++ a' :: found).reverse).1
  rw [hsame] at hnodup
  have hkeys : ((found.reverse ++ [a']).map (·.key)).Nodup := by
    rw [List.map_append, List.map_singleton, hkey]
    refine hnodup.sublist ?_
    rw [List.map_append, List.map_cons]
    exact List.Sublist.append_left (by simp) _
  have hnew : ∀ b ∈ found.reverse ++ [a'], (∅ : Std.HashSet String).contains b.key = false := by
    simp
  have hprefix := Attributes.prefix_distinctAfter hnew hkeys more.reverse
  rw [show found.reverse ++ [a'] ++ more.reverse = (more ++ a' :: found).reverse by simp, hsame,
    List.prefix_append_right_inj] at hprefix
  simpa using hprefix

/-- A name that is followed by `=`, blanks aside, is read with a value. -/
theorem value_of_readAttribute? {first : Char} {more rest : List Char} {a : Attribute}
    {unread : List Char} (hmore : ∀ c ∈ more, inAttributeName c = true)
    (h : readAttribute? first (more ++ ' ' :: '=' :: rest) = some (a, unread)) :
    a.name = String.ofList (first :: more) ∧ a.value ≠ none := by
  have hstop : ∀ c ∈ (' ' :: '=' :: rest).head?, inAttributeName c = false := by
    intro c hc
    cases hc
    decide
  unfold readAttribute? at h
  rw [takeWhile_append_stop hmore hstop, dropWhile_append_stop hmore hstop] at h
  simp only [List.dropWhile_cons, show isSpace ' ' = true from rfl,
    show isSpace '=' = false from by decide, if_true, Bool.false_eq_true, if_false] at h
  split at h
  · cases h
    exact ⟨rfl, by simp⟩
  · cases h

theorem writeValue_of_writesNoValue {options : WriteOptions} {a : Attribute}
    (h : a.writesNoValue options = true) : writeValue options a.value = "" := by
  unfold Attribute.writesNoValue at h
  split at h
  · next hvalue => rw [hvalue, writeValue]
  · next value hvalue => rw [hvalue, writeValue, if_pos h]

/-- **Attributes that are read as expected are apart**, where `bs` is what is expected of `as`: the
same keys, and no value where none is written. -/
theorem isChain_of_readAttributes? {options : WriteOptions} {as bs found result : List Attribute}
    {tail rest : List Char} {selfClosing : Bool} (hnames : ∀ a ∈ as, Attribute.IsName a.name)
    (htail : ∀ a ∈ as.getLast?, Follows options a tail)
    (hread : readAttributes? found (as.flatMap (fun a => (a.write options).toList) ++ tail) =
      some (result, selfClosing, rest))
    (hexpected : List.Forall₂
      (fun a b => b.key = a.key ∧ (a.writesNoValue options = true → b.value = none)) as bs)
    (hsame : Attributes.distinctAfter ∅ result.reverse = found.reverse ++ bs) :
    as.IsChain fun a b => a.writesNoValue options = true → b.beginsWithEq = false := by
  induction hexpected generalizing found with
  | nil => exact .nil
  | @cons a b₁ as bs hb₁ _ ih =>
    obtain ⟨hkey₁, hnone₁⟩ := hb₁
    cases as with
    | nil => exact .singleton a
    | cons b as =>
      obtain ⟨first, more, hname, hfirst, hmore⟩ := (hnames a (by simp)).exists_cons
      have hinput : ((a :: b :: as).flatMap (fun a => (a.write options).toList) ++ tail).dropWhile
          isSpace = first :: (more ++ (writeValue options a.value).toList ++
            ((b :: as).flatMap (fun a => (a.write options).toList) ++ tail)) := by
        simp [Attribute.write, hname, isSpace_eq_false hfirst, show isSpace ' ' = true from rfl]
      rw [readAttributes?_of_name hinput hfirst] at hread
      by_cases hbad : a.writesNoValue options = true ∧ b.beginsWithEq = true
      · -- The next name is read as a value of `a`, which has none.
        exfalso
        obtain ⟨hnone, heq⟩ := hbad
        obtain ⟨c, cs, hb, _, _⟩ := (hnames b (by simp)).exists_cons
        have hc : c = '=' := by simpa [Attribute.beginsWithEq, hb] using heq
        have hwritten : more ++ (writeValue options a.value).toList ++
            ((b :: as).flatMap (fun a => (a.write options).toList) ++ tail) =
            more ++ ' ' :: '=' :: (cs ++ ((writeValue options b.value).toList ++
              (as.flatMap (fun a => (a.write options).toList) ++ tail))) := by
          simp [writeValue_of_writesNoValue hnone, Attribute.write, hb, hc]
        rw [hwritten] at hread
        split at hread
        · next a' unread ha' =>
          obtain ⟨hname', hvalue'⟩ := value_of_readAttribute? hmore ha'
          rw [← hname, String.ofList_toList] at hname'
          have hkey : a'.key = b₁.key := by rw [hkey₁, Attribute.key, Attribute.key, hname']
          rw [eq_of_distinctAfter (suffix_of_readAttributes? hread) hkey hsame] at hvalue'
          exact hvalue' (hnone₁ hnone)
        · cases hread
      -- Here `a` is read as it was written, and the induction goes on behind it.
      · have hchain : a.writesNoValue options = true → b.beginsWithEq = false := by
          intro hnone
          rw [Bool.eq_false_iff]
          exact fun heq => hbad ⟨hnone, heq⟩
        have hfollows : Follows options a
            ((b :: as).flatMap (fun a => (a.write options).toList) ++ tail) := by
          rw [List.flatMap_cons, List.append_assoc]
          exact follows_write (hnames b (by simp)) hchain _
        rw [readAttribute?_write hname hmore hfollows] at hread
        simp only at hread
        have hkey : (a.asRead options).key = b₁.key := by rw [Attribute.key_asRead, hkey₁]
        rw [eq_of_distinctAfter (suffix_of_readAttributes? hread) hkey hsame] at hread
        refine List.isChain_cons_cons.mpr ⟨hchain, ih (fun d hd => hnames d (by simp [hd]))
          (fun d hd => htail d ?_) hread (by simpa using hsame)⟩
        rwa [List.getLast?_cons_cons]

end StartTag

namespace Token

/-! ## Start tags -/

/-- A written start tag is read as a start tag, whose attributes tell if they are apart, or as a
text. -/
theorem next?_writeStart_cases {options : WriteOptions} (hquotes : options.omitQuotes = false)
    {c : Content} (hname : Tag.IsName c.name) (has : c.attributes.Named) (rest : List Char) :
    ∃ token unread,
      next? none ((c.writeStart options).toList ++ rest) = some (token, unread) ∧
        ((∃ tag, token = .startTag tag ∧
            (tag.attributes = c.attributes → c.attributes.Separate options)) ∨
          ∃ value, token = .text value) := by
  obtain ⟨first, more, hfirst, halpha⟩ := hname.exists_cons
  have hdrop := dropEmptyEndTags_writeStart options hname rest
  have htags : (c.attributes.toList.flatMap (fun a => (a.write options).toList) ++
      (c.tagEnd options ++ rest)).head?.all endsName = true :=
    Content.endsName_head?_attributes options c rest
  obtain ⟨_, hafterName⟩ := hname.takeWhile_append _ htags
  have hnext : next? none ((c.writeStart options).toList ++ rest) =
      some (afterAngle (c.name.toList ++ (c.attributes.toList.flatMap
        (fun a => (a.write options).toList) ++ (c.tagEnd options ++ rest)))) := by
    rw [show next? none ((c.writeStart options).toList ++ rest) =
      plain? (dropEmptyEndTags ((c.writeStart options).toList ++ rest)) from rfl, hdrop,
      Content.toList_writeStart]
    simp only [List.cons_append, List.append_assoc, plain?]
  rw [afterAngle_of_alpha (by simp [hfirst, halpha]), StartTag.read?, hafterName] at hnext
  cases hread : StartTag.readAttributes? [] (c.attributes.toList.flatMap
      (fun a => (a.write options).toList) ++ (c.tagEnd options ++ rest)) with
  | none =>
    rw [hread] at hnext
    exact ⟨_, _, hnext, .inr ⟨_, rfl⟩⟩
  | some result =>
    obtain ⟨found, selfClosing, unread⟩ := result
    rw [hread] at hnext
    refine ⟨_, _, hnext, .inl ⟨_, rfl, fun hsame => ?_⟩⟩
    have hexpected : ∀ a ∈ c.attributes.toList,
        a.key = a.key ∧ (a.writesNoValue options = true → a.value = none) := by
      intro a _
      refine ⟨rfl, fun hnone => ?_⟩
      unfold Attribute.writesNoValue at hnone
      split at hnone
      · next hvalue => exact hvalue
      · simp [hquotes] at hnone
    exact StartTag.isChain_of_readAttributes? has.1
      (fun a ha => StartTag.follows_tagEnd ha rest) hread (List.forall₂_same.mpr hexpected)
      (congrArg Attributes.toList hsame)

/-! ## Raw texts -/

/-- What ends a raw text element ends it whatever follows. -/
theorem endsRawText_of_endsRawElement {tag : String} {text : List Char}
    (h : endsRawElement tag text = true) (rest : List Char) :
    endsRawText tag (text ++ rest) = true := by
  unfold endsRawElement at h
  split at h
  · next after =>
    split at h
    · next c found hmatch =>
      simp only [List.cons_append, endsRawText]
      rw [afterIgnoringCase?_append_of_some hmatch]
      exact h
    · cases h
  · cases h

/-- **A raw text stops at its end tag at the latest**, and is one up to where it stops. -/
theorem rawText_append_of_endsRawText {tag : String} {stop : List Char}
    (hstop : endsRawText tag stop = true) (text : List Char) :
    ∃ before middle, text = before ++ middle ∧
      rawText tag (text ++ stop) = (before, middle ++ stop) ∧
      endsRawText tag (middle ++ stop) = true ∧ IsRawText tag before := by
  induction text with
  | nil =>
    refine ⟨[], [], rfl, ?_, hstop, by simp [IsRawText, endsRawElement]⟩
    cases stop with
    | nil => cases hstop
    | cons c stop => rw [List.nil_append, rawText, if_pos hstop]
  | cons c text ih =>
    by_cases hhere : endsRawText tag (c :: (text ++ stop)) = true
    · refine ⟨[], c :: text, rfl, ?_, hhere, by simp [IsRawText, endsRawElement]⟩
      rw [List.cons_append, rawText, if_pos hhere]
    · obtain ⟨before, middle, rfl, hraw, hmiddle, hbefore⟩ := ih
      refine ⟨c :: before, middle, rfl, ?_, hmiddle, fun tail htail => ?_⟩
      · rw [List.cons_append, rawText, if_neg hhere, hraw]
      · rw [List.tails_cons, List.mem_cons] at htail
        rcases htail with rfl | htail
        · rw [Bool.eq_false_iff]
          intro hends
          have := endsRawText_of_endsRawElement hends (middle ++ stop)
          rw [List.cons_append, ← List.append_assoc] at this
          exact hhere this
        · exact hbefore tail htail

theorem isAlpha_of_isAlpha_toLower {c : Char} (h : c.toLower.isAlpha = true) :
    c.isAlpha = true := by
  cases hupper : c.isUpper with
  | true => exact Bool.or_eq_true_iff.mpr (.inl hupper)
  | false => rwa [toLower_eq_self hupper] at h

/-- Where a raw text stops, the name of its element follows. -/
theorem exists_name_of_endsRawText {tag : String} (htag : Tag.isRawText tag = true)
    {input : List Char} (h : endsRawText tag input = true) :
    ∃ c word after, input = '<' :: '/' :: (c :: word ++ after) ∧
      (∀ d ∈ c :: word, d.isAlpha = true) ∧
      (c :: word).map Char.toLower = tag.toList.map Char.toLower ∧
      after.head?.all endsName = true := by
  unfold endsRawText at h
  split at h
  · next body =>
    cases hmatch : afterIgnoringCase? tag.toList body with
    | none => simp [hmatch] at h
    | some after =>
      obtain ⟨word, rfl, hword⟩ := eq_append_of_afterIgnoringCase? hmatch
      have hletters : ∀ c ∈ word, c.isAlpha = true := by
        intro c hc
        have hmem : c.toLower ∈ tag.toList.map Char.toLower := hword ▸ List.mem_map_of_mem hc
        obtain ⟨d, hd, hlower⟩ := List.mem_map.mp hmem
        refine isAlpha_of_isAlpha_toLower ?_
        rw [← hlower]
        exact isAlpha_of_isRawText htag d hd
      have hends : after.head?.all endsName = true := by
        rw [hmatch] at h
        cases after with
        | nil => rfl
        | cons c after => exact h
      cases word with
      | nil =>
        have hempty : tag = "" := by simpa using hword.symm
        rw [hempty] at htag
        exact absurd htag (by decide)
      | cons c word => exact ⟨c, word, after, rfl, hletters, hword, hends⟩
  · cases h

/-- **Where a raw text stops, an end tag of its element is read**, if it is ever finished. -/
theorem next?_of_endsRawText {tag : String} (htag : Tag.isRawText tag = true) {input : List Char}
    (h : endsRawText tag input = true) (hgt : '>' ∈ input) :
    ∃ name unread, next? none input = some (.endTag name, unread) ∧ lower name = lower tag := by
  obtain ⟨c, word, after, rfl, hletters, hword, hends⟩ := exists_name_of_endsRawText htag h
  have hname : Tag.IsName (String.ofList (c :: word)) := by
    rw [Tag.IsName, String.toList_ofList]
    exact ⟨by simpa using hletters c (by simp),
      fun d hd => StartTag.endsName_of_isAlpha (hletters d hd)⟩
  cases hbreak : breakOnChar? '>' after with
  | none =>
    have hword' : '>' ∉ c :: word := fun hmem => absurd (hletters _ hmem) (by decide)
    rw [List.mem_cons, List.mem_cons, List.mem_append] at hgt
    have hafter := not_mem_of_breakOnChar?_none hbreak
    simp [hword', hafter] at hgt
  | some result =>
    obtain ⟨skipped, rest⟩ := result
    have hnext := next?_endTag hname hends hbreak
    rw [String.toList_ofList] at hnext
    refine ⟨_, rest, hnext, ?_⟩
    rw [lower, lower, String.toList_ofList, hword]

end Token

end HtmlMinify
