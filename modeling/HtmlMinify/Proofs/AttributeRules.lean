import HtmlMinify.Proofs.Addresses
import HtmlMinify.Proofs.Families
import HtmlMinify.Proofs.Whitespace

/-!
# Attributes that rules leave alone

Each rule gives attributes that it would keep as they are, and what later rules do to them gives it
no new work: they drop attributes, put them or class names in order, and shorten addresses to ones
that begin with a slash (`AttributeRule.Revises`). Two rules look at more than that. The empty value
of an input goes unless its type forbids it, so no later rule may drop that type; and attributes in
order stay so only under rules that drop some or change values.

## Main statements

* `AttributeRule.sortClass_sortClass`: class names are in order after they were put in order.
* `AttributeRule.Revises`: what rules do to attributes; one lemma for each rule says that it does.
* `AttributeRule.dropEach`: the rules that drop attributes, and why dropping others does not help
  them (`AttributeRule.Fades`).
-/

namespace HtmlMinify

namespace Text

/-! ## Words -/

/-- Characters of one word. -/
def IsWord (w : List Char) : Prop :=
  w ≠ [] ∧ ∀ c ∈ w, isSpace c = false

/-- Whitespace in front of a text is in none of its words. -/
theorem wordsOf_space_cons {c : Char} (hc : isSpace c = true) (cs : List Char) :
    wordsOf (c :: cs) = wordsOf cs := by
  cases cs <;> simp [wordsOf, hc]

/-- One character that is no whitespace is a word. -/
theorem wordsOf_singleton {c : Char} (hc : isSpace c = false) : wordsOf [c] = [[c]] := by
  simp [wordsOf, hc]

/-- A character in front of whitespace is a word of its own. -/
theorem wordsOf_cons_space {c d : Char} (hc : isSpace c = false) (hd : isSpace d = true)
    (cs : List Char) : wordsOf (c :: d :: cs) = [c] :: wordsOf (d :: cs) := by
  rw [wordsOf, hc, if_neg Bool.false_ne_true, if_pos hd]

/-- A character in front of another that is no whitespace begins the word of that one. -/
theorem wordsOf_cons_cons {c d : Char} (hc : isSpace c = false) (hd : isSpace d = false)
    (cs : List Char) : wordsOf (c :: d :: cs) = extendWord c (wordsOf (d :: cs)) := by
  rw [wordsOf, hc, if_neg Bool.false_ne_true, hd, if_neg Bool.false_ne_true]

/-- What a text is cut into are words: not empty, and without whitespace. -/
theorem isWord_of_mem_wordsOf {cs w : List Char} (h : w ∈ wordsOf cs) : IsWord w := by
  have hone : ∀ c, isSpace c = false → IsWord [c] := fun c hc => ⟨by simp, by simpa using hc⟩
  induction cs generalizing w with
  | nil => cases h
  | cons c cs ih =>
    cases hc : isSpace c with
    | true =>
      rw [wordsOf_space_cons hc] at h
      exact ih h
    | false =>
      cases cs with
      | nil =>
        rw [wordsOf_singleton hc, List.mem_singleton] at h
        rw [h]
        exact hone c hc
      | cons d rest =>
        cases hd : isSpace d with
        | true =>
          rw [wordsOf_cons_space hc hd, List.mem_cons] at h
          rcases h with rfl | h
          · exact hone c hc
          · exact ih h
        | false =>
          rw [wordsOf_cons_cons hc hd] at h
          cases hwords : wordsOf (d :: rest) with
          | nil =>
            rw [hwords, extendWord, List.mem_singleton] at h
            rw [h]
            exact hone c hc
          | cons first others =>
            rw [hwords, extendWord, List.mem_cons] at h
            rw [hwords] at ih
            rcases h with rfl | h
            · refine ⟨by simp, fun e he => ?_⟩
              rcases List.mem_cons.mp he with rfl | he
              · exact hc
              · exact (ih List.mem_cons_self).2 e he
            · exact ih (List.mem_cons_of_mem first h)

/-- A word is read whole, if whitespace or nothing follows it. -/
theorem wordsOf_append {w : List Char} (hw : IsWord w) {rest : List Char}
    (hrest : ∀ c ∈ rest.head?, isSpace c = true) : wordsOf (w ++ rest) = w :: wordsOf rest := by
  obtain ⟨hne, hspace⟩ := hw
  induction w with
  | nil => exact absurd rfl hne
  | cons c w ih =>
    have hc : isSpace c = false := hspace c (by simp)
    cases w with
    | nil =>
      cases rest with
      | nil => exact wordsOf_singleton hc
      | cons d rest => exact wordsOf_cons_space hc (hrest d rfl) rest
    | cons d w =>
      have hread := ih (by simp) fun e he => hspace e (by simp [he])
      rw [List.cons_append] at hread
      rw [List.cons_append, List.cons_append, wordsOf_cons_cons hc (hspace d (by simp)), hread,
        extendWord]

/-- Words with blanks between them are cut at these blanks. -/
theorem wordsOf_intercalate {ws : List (List Char)} (h : ∀ w ∈ ws, IsWord w) :
    wordsOf ([' '].intercalate ws) = ws := by
  induction ws with
  | nil => rfl
  | cons w ws ih =>
    have hws := ih fun v hv => h v (by simp [hv])
    cases ws with
    | nil =>
      have hone : wordsOf (w ++ []) = w :: wordsOf [] := wordsOf_append (h w (by simp)) (by simp)
      rw [List.append_nil] at hone
      rw [List.intercalate_singleton, hone]
      rfl
    | cons v ws =>
      have hblank : isSpace ' ' = true := by decide
      rw [List.intercalate_cons_cons, List.append_assoc,
        wordsOf_append (h w (by simp)) (by simpa using hblank), List.singleton_append,
        wordsOf_space_cons hblank, hws]

/-- A text that does not begin with whitespace has a word. -/
theorem wordsOf_ne_nil {c : Char} (hc : isSpace c = false) (cs : List Char) :
    wordsOf (c :: cs) ≠ [] := by
  cases cs with
  | nil =>
    rw [wordsOf_singleton hc]
    exact List.cons_ne_nil _ _
  | cons d cs =>
    cases hd : isSpace d with
    | true =>
      rw [wordsOf_cons_space hc hd]
      exact List.cons_ne_nil _ _
    | false =>
      rw [wordsOf_cons_cons hc hd]
      cases wordsOf (d :: cs) <;> exact List.cons_ne_nil _ _

/-- A text without words holds nothing but whitespace. -/
theorem wordsOf_eq_nil_iff {cs : List Char} : wordsOf cs = [] ↔ cs.all isSpace = true := by
  induction cs with
  | nil => simp [wordsOf]
  | cons c cs ih =>
    cases hc : isSpace c with
    | true => rw [wordsOf_space_cons hc, ih, List.all_cons, hc, Bool.true_and]
    | false => simp [hc, wordsOf_ne_nil hc cs]

/-- Strings are cut into words as their characters are. -/
theorem map_toList_words (s : String) : (words s).map String.toList = wordsOf s.toList := by
  rw [words, List.map_map]
  exact (List.map_congr_left fun _ _ => String.toList_ofList).trans (List.map_id _)

end Text

namespace AttributeRule

open Text

/-! ## Class names in order -/

/-- The words of a value that was sorted are its words, sorted. -/
theorem words_sortedWords (value : String) :
    words (sortedWords value) = (words value).mergeSort fun a b => decide (a ≤ b) := by
  have hwords : ∀ w ∈ ((words value).mergeSort fun a b => decide (a ≤ b)).map String.toList,
      IsWord w := by
    intro w hw
    obtain ⟨s, hs, rfl⟩ := List.mem_map.mp hw
    obtain ⟨cs, hcs, rfl⟩ := List.mem_map.mp (List.mem_mergeSort.mp hs)
    rw [String.toList_ofList]
    exact isWord_of_mem_wordsOf hcs
  rw [words, sortedWords, String.toList_intercalate]
  change (wordsOf ([' '].intercalate _)).map String.ofList = _
  rw [wordsOf_intercalate hwords, List.map_map]
  have hid : String.ofList ∘ String.toList = id := funext fun s => String.ofList_toList
  rw [hid, List.map_id]

/-- **Sorting the words of a value twice is sorting them once.** -/
theorem sortedWords_sortedWords (value : String) :
    sortedWords (sortedWords value) = sortedWords value := by
  rw [sortedWords, words_sortedWords, List.mergeSort_of_pairwise, sortedWords]
  refine List.pairwise_mergeSort (fun a b c hab hbc => ?_) (fun a b => ?_) _
  · rw [decide_eq_true_iff] at hab hbc ⊢
    exact String.le_trans hab hbc
  · rw [Bool.or_eq_true, decide_eq_true_iff, decide_eq_true_iff]
    exact String.le_total a b

/-- Sorting its words does not make a value blank. -/
theorem isBlank_sortedWords {value : String} (h : isBlank value = false) :
    isBlank (sortedWords value) = false := by
  cases hblank : isBlank (sortedWords value) with
  | false => rfl
  | true =>
    have hnone : words (sortedWords value) = [] := by
      rw [words, wordsOf_eq_nil_iff.mpr hblank]
      rfl
    have hlength := congrArg List.length (words_sortedWords value)
    rw [hnone, List.length_mergeSort, words, List.length_map] at hlength
    have hwords : wordsOf value.toList = [] := List.length_eq_zero_iff.mp hlength.symm
    rw [isBlank, wordsOf_eq_nil_iff.mp hwords] at h
    cases h

/-- Sorting class names leaves the name of the attribute. -/
theorem name_sortClass (a : Attribute) : (sortClass a).name = a.name := by
  rw [sortClass]
  split
  · rfl
  · split <;> rfl

/-- **Class names are in order after they were put in order.** -/
theorem sortClass_sortClass (a : Attribute) : sortClass (sortClass a) = sortClass a := by
  obtain ⟨name, value⟩ := a
  cases value with
  | none => rfl
  | some value =>
    cases hblank : isBlank value with
    | true => simp [sortClass, hblank]
    | false => simp [sortClass, hblank, isBlank_sortedWords hblank, sortedWords_sortedWords]

end AttributeRule

/-! ## Distinct keys -/

/-- An attribute has a name, letter case aside, if its key is that name in small letters. -/
theorem Attribute.is_iff {a : Attribute} {name : String} :
    a.is name = true ↔ a.key = Text.lower name := by
  rw [is, Text.sameIgnoringCase, beq_iff_eq, key]

/-- Whether an attribute has a name does not depend on its value. -/
theorem Attribute.is_congr {a a' : Attribute} (h : a'.name = a.name) (name : String) :
    a'.is name = a.is name := by
  rw [is, h, is]

namespace Attributes

variable {as as' : Attributes} {name : String}

/-- No two attributes have the same key. -/
def Distinct (as : Attributes) : Prop :=
  (as.toList.map (·.key)).Nodup

instance (as : Attributes) : Decidable as.Distinct :=
  inferInstanceAs (Decidable (List.Nodup _))

/-- Dropping attributes leaves the others distinct. -/
theorem Distinct.of_sublist (h : as.Distinct) (hsub : as'.toList.Sublist as.toList) :
    as'.Distinct :=
  h.sublist (hsub.map _)

/-- Of distinct attributes only one has a given name. -/
theorem Distinct.eq_of_is (h : as.Distinct) {a b : Attribute} (ha : a ∈ as.toList)
    (hb : b ∈ as.toList) (hais : a.is name = true) (hbis : b.is name = true) : a = b := by
  rw [Attribute.is_iff] at hais hbis
  exact List.inj_on_of_nodup_map h ha hb (hais.trans hbis.symm)

/-- The attribute found under a name has this name. -/
theorem is_of_get? {a : Attribute} (h : as.get? name = some a) : a.is name = true :=
  List.find?_some (p := fun a : Attribute => a.is name) h

/-- Of distinct attributes the one with a given name is found. -/
theorem get?_eq_some_iff (h : as.Distinct) {a : Attribute} :
    as.get? name = some a ↔ a ∈ as.toList ∧ a.is name = true := by
  constructor
  · exact fun hget => ⟨List.mem_of_find?_eq_some hget, is_of_get? hget⟩
  · rintro ⟨hmem, his⟩
    cases hget : as.get? name with
    | none => exact absurd his (List.find?_eq_none.mp hget a hmem)
    | some b =>
      rw [h.eq_of_is (List.mem_of_find?_eq_some hget) hmem (is_of_get? hget) his]

/-- An attribute is found under a name if there is one of that name. -/
theorem contains_iff : as.contains name = true ↔ ∃ a ∈ as.toList, a.is name = true := by
  rw [contains, List.any_eq_true]
  simp only [beq_iff_eq, Attribute.is_iff]

/-- An attribute that was erased is found no more. -/
theorem contains_erase (h : as.Distinct) : (as.erase name).contains name = false := by
  rw [Bool.eq_false_iff, ne_eq, contains_iff]
  rintro ⟨a, ha, his⟩
  have hmem : a ∈ as.toList := List.eraseP_sublist.subset ha
  -- An attribute with this key is erased, and no other has the key.
  obtain ⟨b, before, after, hb, hbis, hsplit, herase⟩ :=
    List.exists_of_eraseP (p := fun a : Attribute => a.is name) hmem his
  have hbmem : b ∈ as.toList := by rw [hsplit]; simp
  obtain rfl := h.eq_of_is hmem hbmem his hbis
  rw [Distinct, hsplit, List.map_append, List.map_cons] at h
  have hrest : a ∈ before ++ after := by rw [← herase]; exact ha
  rcases List.mem_append.mp hrest with hin | hin
  · exact hb a hin his
  · exact ((List.nodup_cons.mp (List.nodup_append.mp h).2.1).1) (List.mem_map_of_mem hin)

end Attributes

namespace AttributeRule

variable {as as' : Attributes} {name : String}

/-! ## Revisions -/

/-- An attribute as rules may leave it: as it was, with its class names in order, or with an address
that begins with a slash. -/
inductive Revised : Attribute → Attribute → Prop where
  | same (a : Attribute) : Revised a a
  | classNames {a : Attribute} : a.is "class" = true → Revised a (sortClass a)
  | address {a : Attribute} (rest : List Char) : Tag.isUrlAttribute a.name = true →
    Revised a { a with value := some (String.ofList ('/' :: rest)) }

/-- A revised attribute has its old name. -/
theorem Revised.name_eq {a a' : Attribute} (h : Revised a a') : a'.name = a.name := by
  cases h with
  | same => rfl
  | classNames => exact name_sortClass a
  | address => rfl

/-- Attributes as rules may leave them: some are gone, the others are revised, in any order. -/
structure Revises (as as' : Attributes) : Prop where
  distinct : as'.Distinct
  comes : ∀ a' ∈ as'.toList, ∃ a ∈ as.toList, Revised a a'

/-- Dropping attributes revises them. -/
theorem Revises.of_sublist (h : as.Distinct) (hsub : as'.toList.Sublist as.toList) :
    Revises as as' :=
  ⟨h.of_sublist hsub, fun a ha => ⟨a, hsub.subset ha, .same a⟩⟩

/-- Revising attributes one by one revises them all. -/
theorem Revises.of_map {change : Attribute → Attribute} (h : as.Distinct)
    (hchange : ∀ a, Revised a (change a)) : Revises as ⟨as.toList.map change⟩ := by
  refine ⟨?_, fun a' ha' => ?_⟩
  · have hkeys : (as.toList.map change).map (·.key) = as.toList.map (·.key) := by
      rw [List.map_map]
      refine List.map_congr_left fun a _ => ?_
      exact congrArg Text.lower (hchange a).name_eq
    rw [Attributes.Distinct, hkeys]
    exact h
  · obtain ⟨a, ha, rfl⟩ := List.mem_map.mp ha'
    exact ⟨a, ha, hchange a⟩

/-- Putting attributes into another order revises them. -/
theorem Revises.of_perm (h : as.Distinct) (hperm : as'.toList.Perm as.toList) : Revises as as' :=
  ⟨(hperm.map _).nodup_iff.mpr h, fun a ha => ⟨a, hperm.subset ha, .same a⟩⟩

/-- What revised attributes contain was there before. -/
theorem Revises.contains (h : Revises as as') (hcontains : as'.contains name = true) :
    as.contains name = true := by
  obtain ⟨a', ha', his⟩ := Attributes.contains_iff.mp hcontains
  obtain ⟨a, ha, hrevised⟩ := h.comes a' ha'
  refine Attributes.contains_iff.mpr ⟨a, ha, ?_⟩
  rwa [← Attribute.is_congr hrevised.name_eq]

/-- Values under this name are never revised. -/
def Plain (name : String) : Prop :=
  Text.lower name ≠ "class" ∧ Tag.isUrlAttribute name = false

instance (name : String) : Decidable (Plain name) :=
  inferInstanceAs (Decidable (_ ∧ _))

/-- An attribute with a plain name is no class. -/
theorem Plain.not_class {a : Attribute} (h : Plain name) (his : a.is name = true) :
    a.is "class" = false := by
  rw [Attribute.is_iff, Attribute.key] at his
  rw [Bool.eq_false_iff, ne_eq, Attribute.is_iff, Attribute.key, his]
  exact h.1

/-- Whether an attribute is an address is up to its name, letter case aside. -/
theorem isUrlAttribute_of_is {a : Attribute} (his : a.is name = true) :
    Tag.isUrlAttribute a.name = Tag.isUrlAttribute name := by
  rw [Attribute.is_iff, Attribute.key] at his
  rw [Tag.isUrlAttribute, Text.inTable, his]
  rfl

/-- An attribute with a plain name is no address. -/
theorem Plain.not_url {a : Attribute} (h : Plain name) (his : a.is name = true) :
    Tag.isUrlAttribute a.name = false :=
  (isUrlAttribute_of_is his).trans h.2

/-- An attribute with a plain name is revised by leaving it as it is. -/
theorem Revised.eq_of_plain {a a' : Attribute} (h : Revised a a') (hplain : Plain name)
    (his : a'.is name = true) : a' = a := by
  rw [Attribute.is_congr h.name_eq] at his
  cases h with
  | same => rfl
  | classNames hclass =>
    rw [hplain.not_class his] at hclass
    cases hclass
  | address rest hurl =>
    rw [hplain.not_url his] at hurl
    cases hurl

/-- What is found under a plain name among revised attributes was found there before. -/
theorem Revises.get? (h : Revises as as') (hdistinct : as.Distinct) (hplain : Plain name)
    {a : Attribute} (hget : as'.get? name = some a) : as.get? name = some a := by
  obtain ⟨hmem, his⟩ := (Attributes.get?_eq_some_iff h.distinct).mp hget
  obtain ⟨b, hb, hrevised⟩ := h.comes a hmem
  obtain rfl := hrevised.eq_of_plain hplain his
  exact (Attributes.get?_eq_some_iff hdistinct).mpr ⟨hb, his⟩

/-- If no attribute of a plain name is dropped, the same is found under this name. -/
theorem Revises.get?_eq (h : Revises as as') (hdistinct : as.Distinct) (hplain : Plain name)
    (hstays : ∀ a ∈ as.toList, a.is name = true → a ∈ as'.toList) :
    as'.get? name = as.get? name := by
  refine Option.ext fun a => ⟨h.get? hdistinct hplain, fun hget => ?_⟩
  obtain ⟨hmem, his⟩ := (Attributes.get?_eq_some_iff hdistinct).mp hget
  exact (Attributes.get?_eq_some_iff h.distinct).mpr ⟨hstays a hmem his, his⟩

/-- A value that is found under a plain name after a revision was found there before. -/
theorem Revises.valueIs (h : Revises as as') (hdistinct : as.Distinct) (hplain : Plain name)
    {expected : String} (hvalue : valueIs as' name expected = true) :
    valueIs as name expected = true := by
  rw [AttributeRule.valueIs] at hvalue ⊢
  cases hget : as'.get? name with
  | none => simp [hget] at hvalue
  | some a =>
    rw [h.get? hdistinct hplain hget, ← hget]
    exact hvalue

/-- The value under a plain name is the old one, if it is still there. -/
theorem Revises.value? (h : Revises as as') (hdistinct : as.Distinct) (hplain : Plain name)
    {value : String} (hvalue : as'.value? name = some value) : as.value? name = some value := by
  rw [Attributes.value?] at hvalue ⊢
  obtain ⟨a, hget, rfl⟩ := Option.map_eq_some_iff.mp hvalue
  rw [h.get? hdistinct hplain hget]
  rfl

/-! ## Rules that drop an attribute -/

/-- A condition that does not come about when attributes are revised. -/
def Fades (cond : Content → Bool) : Prop :=
  ∀ c c' : Content, c.Alike c' → c.attributes.Distinct → Revises c.attributes c'.attributes →
    cond c' = true → cond c = true

namespace Fades

variable {cond cond' : Content → Bool}

/-- Both of two conditions that fade fade together. -/
theorem and (h : Fades cond) (h' : Fades cond') : Fades fun c => cond c && cond' c := by
  intro c c' halike hdistinct hrevises hc'
  rw [Bool.and_eq_true] at hc' ⊢
  exact ⟨h c c' halike hdistinct hrevises hc'.1, h' c c' halike hdistinct hrevises hc'.2⟩

/-- One of two conditions that fade fades. -/
theorem or (h : Fades cond) (h' : Fades cond') : Fades fun c => cond c || cond' c := by
  intro c c' halike hdistinct hrevises hc'
  rw [Bool.or_eq_true] at hc' ⊢
  exact hc'.imp (h c c' halike hdistinct hrevises) (h' c c' halike hdistinct hrevises)

/-- A condition that looks at nothing fades. -/
theorem const (b : Bool) : Fades fun _ => b :=
  fun _ _ _ _ _ h => h

/-- Which tag an element has does not change, so this fades. -/
theorem isTag (tag : String) : Fades (·.isTag tag) := by
  intro c c' halike _ _ hc'
  exact (halike.isTag_eq tag).symm.trans hc'

/-- Whether an attribute with a plain name has a certain value fades. -/
theorem valueIs {name : String} (hplain : Plain name) (expected : String) :
    Fades (AttributeRule.valueIs ·.attributes name expected) :=
  fun _ _ _ hdistinct hrevises => hrevises.valueIs hdistinct hplain

/-- Whether it has one of certain values fades, too. -/
theorem valueIsAny {name : String} (hplain : Plain name) (expected : List String) :
    Fades fun c => expected.any (AttributeRule.valueIs c.attributes name) := by
  intro c c' _ hdistinct hrevises hc'
  rw [List.any_eq_true] at hc' ⊢
  obtain ⟨value, hmem, hvalue⟩ := hc'
  exact ⟨value, hmem, hrevises.valueIs hdistinct hplain hvalue⟩

/-- Whether an element is a link to a style sheet fades. -/
theorem isStylesheetLink : Fades AttributeRule.isStylesheetLink := by
  refine (isTag "link").and fun c c' _ hdistinct hrevises hc' => ?_
  cases hvalue : c'.attributes.value? "rel" with
  | none => simp [hvalue] at hc'
  | some rel =>
    rw [hrevises.value? hdistinct (by decide) hvalue, ← hvalue]
    exact hc'

/-- An anchor's name stays other than its id. -/
theorem nameIsId : Fades fun c => c.isTag "a" && (c.attributes.value? "id").isSome &&
    c.attributes.value? "name" == c.attributes.value? "id" := by
  intro c c' halike hdistinct hrevises hc'
  rw [Bool.and_eq_true, Bool.and_eq_true, beq_iff_eq] at hc' ⊢
  obtain ⟨⟨htag, hid⟩, hname⟩ := hc'
  obtain ⟨id, hid⟩ := Option.isSome_iff_exists.mp hid
  have hid' := hrevises.value? hdistinct (by decide) hid
  have hname' := hrevises.value? hdistinct (by decide) (hname.trans hid)
  rw [hid', hname']
  exact ⟨⟨isTag "a" c c' halike hdistinct hrevises htag, rfl⟩, rfl⟩

end Fades

/-- Dropping an attribute drops nothing else. -/
theorem sublist_drop (as : Attributes) (name : String) :
    (drop as name).1.toList.Sublist as.toList := by
  rw [drop]
  split
  · exact List.eraseP_sublist
  · exact List.Sublist.refl _

/-- When an attribute goes, and which. -/
structure Drop where
  cond : Content → Bool
  name : String

namespace Drop

variable {d : Drop} {c c' : Content}

/-- The rule for one attribute. -/
def rule (d : Drop) (c : Content) : Result :=
  if d.cond c then drop c.attributes d.name else keep c.attributes

/-- The rule has nothing to drop. -/
def Rests (d : Drop) (c : Content) : Prop :=
  d.cond c = true → c.attributes.contains d.name = false

/-- A rule that rests keeps all attributes. -/
theorem rule_of_rests (h : d.Rests c) : d.rule c = keep c.attributes := by
  rw [rule]
  split
  · next hcond => rw [drop, h hcond, if_neg Bool.false_ne_true]
  · rfl

/-- A rule that drops an attribute drops nothing else. -/
theorem sublist_rule (d : Drop) (c : Content) :
    (d.rule c).1.toList.Sublist c.attributes.toList := by
  rw [rule]
  split
  · exact sublist_drop c.attributes d.name
  · exact List.Sublist.refl _

/-- **A rule that drops an attribute rests on what it leaves.** -/
theorem rests_rule (h : c.attributes.Distinct) :
    d.Rests { c with attributes := (d.rule c).1 } := by
  intro hcond
  cases hc : d.cond c with
  | true =>
    have hrule : d.rule c = drop c.attributes d.name := by rw [rule, if_pos hc]
    rw [hrule, drop]
    split
    · exact Attributes.contains_erase h
    · next hcontains => exact Bool.eq_false_iff.mpr hcontains
  | false =>
    have hrule : d.rule c = keep c.attributes := by rw [rule, hc, if_neg Bool.false_ne_true]
    rw [hrule] at hcond
    exact absurd hcond (Bool.eq_false_iff.mp hc)

/-- If its condition fades, it also rests on whatever becomes of that later. -/
theorem Rests.revises (h : d.Rests c) (hfades : Fades d.cond) (halike : c.Alike c')
    (hdistinct : c.attributes.Distinct) (hrevises : Revises c.attributes c'.attributes) :
    d.Rests c' := by
  intro hcond
  rw [Bool.eq_false_iff]
  intro hcontains
  have hnot := h (hfades c c' halike hdistinct hrevises hcond)
  rw [hrevises.contains hcontains] at hnot
  cases hnot

end Drop

/-- Drops one attribute after another. -/
def dropEach (c : Content) (result : Result) (drops : List Drop) : Result :=
  drops.foldl (fun result d => andThen result fun as => d.rule { c with attributes := as }) result

section DropEach

variable {c : Content} {drops : List Drop}

/-- Several rules that drop attributes do nothing else. -/
theorem sublist_dropEach (c : Content) (result : Result) (drops : List Drop) :
    (dropEach c result drops).1.toList.Sublist result.1.toList := by
  induction drops generalizing result with
  | nil => exact List.Sublist.refl _
  | cons d drops ih => exact (ih _).trans (d.sublist_rule { c with attributes := result.1 })

/-- **Several rules rest on what all of them leave**, if their conditions fade: none brings back
what another needs. -/
theorem rests_dropEach {result : Result} (hdistinct : result.1.Distinct)
    (hfades : ∀ d ∈ drops, Fades d.cond) :
    ∀ d ∈ drops, d.Rests { c with attributes := (dropEach c result drops).1 } := by
  induction drops generalizing result with
  | nil => simp
  | cons d drops ih =>
    have hsub := d.sublist_rule { c with attributes := result.1 }
    have hdistinct' : (d.rule { c with attributes := result.1 }).1.Distinct :=
      hdistinct.of_sublist hsub
    intro d' hd'
    rcases List.mem_cons.mp hd' with rfl | hd'
    · have hhere : d'.Rests
          { c with attributes := (d'.rule { c with attributes := result.1 }).1 } :=
        Drop.rests_rule (c := { c with attributes := result.1 }) hdistinct
      exact hhere.revises (hfades d' (by simp)) ⟨rfl, rfl⟩ hdistinct'
        (.of_sublist hdistinct' (sublist_dropEach c _ drops))
    · exact @ih (andThen result fun as => d.rule { c with attributes := as }) hdistinct'
        (fun d hd => hfades d (by simp [hd])) d' hd'

/-- Several rules that rest change nothing. -/
theorem dropEach_of_rests {result : Result}
    (h : ∀ d ∈ drops, d.Rests { c with attributes := result.1 }) :
    dropEach c result drops = result := by
  induction drops with
  | nil => rfl
  | cons d drops ih =>
    rw [dropEach, List.foldl_cons]
    have hhere : andThen result (fun as => d.rule { c with attributes := as }) = result := by
      rw [andThen, Drop.rule_of_rests (h d (by simp))]
      rfl
    rw [hhere]
    exact ih fun d hd => h d (by simp [hd])

end DropEach

/-! ## Attributes that say nothing -/

/-- An attribute that says nothing after a revision said nothing before. -/
theorem Revised.saysNothing {a a' : Attribute} (h : Revised a a')
    (hnothing : saysNothing a' = true) : saysNothing a = true := by
  cases h with
  | same => exact hnothing
  | classNames hclass =>
    rw [AttributeRule.saysNothing, Bool.and_eq_true] at hnothing ⊢
    refine ⟨?_, ?_⟩
    · have hany := hnothing.1
      have his : (sortClass a).is = a.is := funext (Attribute.is_congr (name_sortClass a))
      rwa [his, name_sortClass] at hany
    · obtain ⟨name, value⟩ := a
      cases value with
      | none => exact hnothing.2
      | some value =>
        cases hblank : Text.isBlank value with
        | true => exact hblank
        | false =>
          simp [sortClass, hblank, Attribute.valueOrEmpty, isBlank_sortedWords hblank] at hnothing
  | address rest hurl =>
    have hslash : Text.isSpace '/' = false := by decide
    have hblank : Text.isBlank (String.ofList ('/' :: rest)) = false := by
      rw [Text.isBlank, String.toList_ofList, List.all_cons, hslash, Bool.false_and]
    rw [AttributeRule.saysNothing, Bool.and_eq_true] at hnothing
    exact absurd hnothing.2 (Bool.eq_false_iff.mp hblank)

/-- The rule on empty attributes keeps those that say something. -/
theorem removeEmpty_of_rests {c : Content}
    (h : ∀ a ∈ c.attributes.toList, saysNothing a = false) :
    removeEmpty c = keep c.attributes := by
  have hkept : c.attributes.filter (!saysNothing ·) = c.attributes := by
    rw [Attributes.filter, List.filter_eq_self.mpr fun a ha => by rw [h a ha]; rfl]
  rw [removeEmpty, hkept, Nat.sub_self]
  rfl

/-- **The rule on empty attributes leaves none of them.** -/
theorem rests_removeEmpty (c : Content) :
    ∀ a ∈ (removeEmpty c).1.toList, saysNothing a = false := by
  intro a ha
  have hkept := (List.mem_filter.mp ha).2
  simpa using hkept

/-! ## Class names -/

/-- The class names of one attribute in order, if it holds any. -/
def inOrder (a : Attribute) : Attribute :=
  if a.is "class" then sortClass a else a

/-- Putting class names in order revises an attribute. -/
theorem revised_inOrder (a : Attribute) : Revised a (inOrder a) := by
  rw [inOrder]
  split
  · next hclass => exact .classNames hclass
  · exact .same a

/-- Class names that are in order stay as they are. -/
theorem inOrder_inOrder (a : Attribute) : inOrder (inOrder a) = inOrder a := by
  have hname := (revised_inOrder a).name_eq
  cases hclass : a.is "class" with
  | true =>
    have hsorted : inOrder a = sortClass a := if_pos hclass
    rw [inOrder, Attribute.is_congr hname, if_pos hclass, hsorted, sortClass_sortClass]
  | false =>
    have hsame : inOrder a = a := if_neg (Bool.eq_false_iff.mp hclass)
    rw [hsame, hsame]

/-- Class names in order stay so when the attribute is revised. -/
theorem Revised.inOrder {a a' : Attribute} (h : Revised a a')
    (hrest : AttributeRule.inOrder a = a) : AttributeRule.inOrder a' = a' := by
  cases h with
  | same => exact hrest
  | classNames hclass =>
    have hsorted : AttributeRule.inOrder a = sortClass a := if_pos hclass
    rw [← hsorted, inOrder_inOrder]
  | address rest hurl =>
    -- No attribute holds both class names and an address.
    refine if_neg fun hclass => ?_
    have hclass' : a.is "class" = true := hclass
    rw [isUrlAttribute_of_is hclass'] at hurl
    exact absurd hurl (by decide)

/-- Attributes whose class names are in order stay as they are. -/
theorem map_inOrder_of_rests {items : List Attribute} (h : ∀ a ∈ items, inOrder a = a) :
    items.map inOrder = items := by
  rw [List.map_congr_left h, List.map_id']

/-- Only one attribute can hold class names. -/
theorem modifyFirst_eq_map {items : List Attribute} (h : (items.map (·.key)).Nodup) :
    modifyFirst (·.is "class") sortClass items = items.map inOrder := by
  induction items with
  | nil => rfl
  | cons a items ih =>
    rw [List.map_cons, List.nodup_cons] at h
    rw [List.map_cons, modifyFirst]
    cases hclass : a.is "class" with
    | true =>
      have hothers : items.map inOrder = items := by
        refine map_inOrder_of_rests fun b hb => if_neg fun hbclass => h.1 ?_
        rw [Attribute.is_iff.mp hclass, ← Attribute.is_iff.mp hbclass]
        exact List.mem_map_of_mem hb
      rw [if_pos rfl, hothers, inOrder, if_pos hclass]
    | false =>
      rw [if_neg Bool.false_ne_true, ih h.2, inOrder, if_neg (Bool.eq_false_iff.mp hclass)]

/-- The rule on class names puts those of all attributes in order: only one of them is a class. -/
theorem sortClassNames_fst {c : Content} (h : c.attributes.Distinct) :
    (sortClassNames c).1 = ⟨c.attributes.toList.map inOrder⟩ :=
  congrArg Attributes.mk (modifyFirst_eq_map h)

/-- The rule on class names keeps those that are in order. -/
theorem sortClassNames_of_rests {c : Content} (hdistinct : c.attributes.Distinct)
    (h : ∀ a ∈ c.attributes.toList, inOrder a = a) : sortClassNames c = keep c.attributes := by
  have hsame : (sortClassNames c).1 = c.attributes := by
    rw [sortClassNames_fst hdistinct, map_inOrder_of_rests h]
  exact Prod.ext hsame (if_pos hsame)

/-- **The rule on class names leaves them in order.** -/
theorem rests_sortClassNames {c : Content} (h : c.attributes.Distinct) :
    ∀ a ∈ (sortClassNames c).1.toList, inOrder a = a := by
  rw [sortClassNames_fst h]
  intro a ha
  obtain ⟨b, -, rfl⟩ := List.mem_map.mp ha
  exact inOrder_inOrder b

/-! ## Attributes in order -/

/-- The attributes are in order of their names. -/
def Ordered (as : Attributes) : Prop :=
  as.toList.Pairwise fun a b => Attributes.nameLe a b = true

/-- Dropping attributes leaves the others ordered. -/
theorem Ordered.of_sublist (h : Ordered as) (hsub : as'.toList.Sublist as.toList) : Ordered as' :=
  h.sublist hsub

/-- Changing values leaves attributes ordered. -/
theorem Ordered.map {change : Attribute → Attribute} (h : Ordered as)
    (hchange : ∀ a, (change a).name = a.name) : Ordered ⟨as.toList.map change⟩ := by
  refine List.pairwise_map.mpr (List.Pairwise.imp (fun {a b} hle => ?_) h)
  rwa [Attributes.nameLe, hchange, hchange]

/-- Sorting by name keeps all attributes. -/
theorem perm_sortByName (c : Content) : (sortByName c).1.toList.Perm c.attributes.toList :=
  List.mergeSort_perm _ _

/-- Sorting by name puts them in order. -/
theorem ordered_sortByName (as : Attributes) : Ordered as.sortByName := by
  refine List.pairwise_mergeSort (fun a b c hab hbc => ?_) (fun a b => ?_) _
  · rw [Attributes.nameLe, decide_eq_true_iff] at hab hbc ⊢
    exact String.le_trans hab hbc
  · rw [Attributes.nameLe, Attributes.nameLe, Bool.or_eq_true, decide_eq_true_iff,
      decide_eq_true_iff]
    exact String.le_total _ _

/-- Attributes that are in order stay as they are. -/
theorem sortByName_of_ordered {c : Content} (h : Ordered c.attributes) :
    sortByName c = keep c.attributes := by
  have hsame : c.attributes.sortByName = c.attributes := by
    rw [Attributes.sortByName, List.mergeSort_of_pairwise h]
  have hmoved : ∀ {moved : Attribute × Attribute → Bool}, (∀ a, moved (a, a) = false) →
      ∀ items : List Attribute, (items.zip items).filter moved = [] := by
    intro moved hmoved items
    rw [List.zip, List.zipWith_self, List.filter_eq_nil_iff]
    intro pair hpair
    obtain ⟨a, -, rfl⟩ := List.mem_map.mp hpair
    simp [hmoved a]
  rw [sortByName, hsame, hmoved fun a => bne_self_eq_false a.name]
  rfl

end AttributeRule

namespace Links

open AttributeRule

variable {change? : String → Option String} {as : Attributes}

/-! ## Addresses -/

/-- The address of an attribute as it is replaced. -/
def newAddress? (change? : String → Option String) (a : Attribute) : Option String :=
  if Tag.isUrlAttribute a.name then a.value.bind change? else none

/-- An attribute with its address replaced. -/
def readdressed (change? : String → Option String) (a : Attribute) : Attribute :=
  (newAddress? change? a).elim a fun value => { a with value := some value }

/-- Replacing addresses goes through the attributes one by one, and counts those that change. -/
theorem replaceAddresses_eq (change? : String → Option String) (as : Attributes) :
    replaceAddresses change? as = (⟨as.toList.map (readdressed change?)⟩,
      (as.toList.filter fun a => (newAddress? change? a).isSome).length) :=
  rfl

/-- The change puts a slash in the place of what an address begins with, and then the address has
nothing more to lose. -/
structure Shortens (change? : String → Option String) : Prop where
  slash : ∀ {address address'}, change? address = some address' →
    ∃ c lost rest, address.toList = c :: lost ++ rest ∧ address' = String.ofList ('/' :: rest)
  rests : ∀ {address address'}, change? address = some address' → change? address' = none

/-- Shortening its address revises an attribute. -/
theorem Shortens.revised (h : Shortens change?) (a : Attribute) :
    Revised a (readdressed change? a) := by
  rw [readdressed]
  cases hnew : newAddress? change? a with
  | none => exact .same a
  | some value =>
    rw [newAddress?] at hnew
    split at hnew
    · next hurl =>
      obtain ⟨address, -, hchange⟩ := Option.bind_eq_some_iff.mp hnew
      obtain ⟨-, -, rest, -, rfl⟩ := h.slash hchange
      exact .address rest hurl
    · cases hnew

/-- An address that was shortened is not shortened again. -/
theorem Shortens.newAddress?_readdressed (h : Shortens change?) (a : Attribute) :
    newAddress? change? (readdressed change? a) = none := by
  cases hnew : newAddress? change? a with
  | none => rw [readdressed, hnew, Option.elim_none, hnew]
  | some value =>
    rw [readdressed, hnew, Option.elim_some, newAddress?]
    rw [newAddress?] at hnew
    split at hnew
    · next hurl =>
      obtain ⟨address, -, hchange⟩ := Option.bind_eq_some_iff.mp hnew
      rw [if_pos hurl, Option.bind_some, h.rests hchange]
    · cases hnew

/-- An address that begins with a slash has no scheme to lose. -/
theorem newAddress?_of_revised {a a' : Attribute}
    (hslash : ∀ rest, change? (String.ofList ('/' :: rest)) = none) (h : Revised a a')
    (hrest : newAddress? change? a = none) : newAddress? change? a' = none := by
  cases h with
  | same => exact hrest
  | classNames hclass =>
    have hurl : Tag.isUrlAttribute (sortClass a).name = false := by
      rw [name_sortClass, isUrlAttribute_of_is hclass]
      decide
    rw [newAddress?, hurl, if_neg Bool.false_ne_true]
  | address rest hurl => rw [newAddress?, if_pos hurl, Option.bind_some, hslash]

/-- Attributes without an address to replace stay as they are. -/
theorem replaceAddresses_of_rests (h : ∀ a ∈ as.toList, newAddress? change? a = none) :
    replaceAddresses change? as = keep as := by
  have hsame : as.toList.map (readdressed change?) = as.toList := by
    have hid : ∀ a ∈ as.toList, readdressed change? a = a := by
      intro a ha
      rw [readdressed, h a ha, Option.elim_none]
    rw [List.map_congr_left hid, List.map_id']
  have hnone : as.toList.filter (fun a => (newAddress? change? a).isSome) = [] := by
    refine List.filter_eq_nil_iff.mpr fun a ha => ?_
    rw [h a ha]
    exact Bool.false_ne_true
  rw [replaceAddresses_eq, hsame, hnone]
  rfl

/-- **The rules on addresses leave none to replace.** -/
theorem Shortens.rests_replaceAddresses (h : Shortens change?) (as : Attributes) :
    ∀ a ∈ (replaceAddresses change? as).1.toList, newAddress? change? a = none := by
  intro a ha
  obtain ⟨b, -, rfl⟩ := List.mem_map.mp ha
  exact h.newAddress?_readdressed b

/-- No word that begins with a letter is found at a slash. -/
theorem afterIgnoringCase?_slash {w : Char} (hw : w.toLower ≠ '/') (word rest : List Char) :
    Text.afterIgnoringCase? (w :: word) ('/' :: rest) = none := by
  have hslash : ('/' : Char).toLower = '/' := by decide
  rw [Text.afterIgnoringCase?, hslash, if_neg (by simpa using hw)]

/-- A word that is not empty is so in any letter case. -/
theorem exists_cons_of_lower {found word : String} (h : Text.lower found = Text.lower word)
    (hword : word.toList ≠ []) : ∃ c lost, found.toList = c :: lost := by
  refine List.exists_cons_of_ne_nil fun hnil => hword ?_
  rw [Text.lower_eq_lower_iff, hnil] at h
  exact List.map_eq_nil_iff.mp h.symm

/-- An address that begins with a slash has no scheme to leave out. -/
theorem withoutScheme?_slash (read? : String → Option Url) (ctx : Context) {scheme : String}
    {w : Char} {word : List Char} (hscheme : scheme.toList = w :: word) (hw : w.toLower ≠ '/')
    (rest : List Char) :
    withoutScheme? read? ctx scheme (String.ofList ('/' :: rest)) = none := by
  rw [withoutScheme?, hscheme, String.toList_ofList, afterIgnoringCase?_slash hw]
  rfl

/-- **An address loses its scheme once.** -/
theorem shortens_withoutScheme? (read? : String → Option Url) (ctx : Context) {scheme : String}
    {w : Char} {word : List Char} (hscheme : scheme.toList = w :: word) (hw : w.toLower ≠ '/') :
    Shortens (withoutScheme? read? ctx scheme) := by
  have hslash : ∀ {address address'}, withoutScheme? read? ctx scheme address = some address' →
      ∃ c lost rest, address.toList = c :: lost ++ rest ∧
        address' = String.ofList ('/' :: rest) := by
    intro address address' hchange
    obtain ⟨⟨found, hfound, haddress⟩, ⟨path, hpath⟩, -⟩ := withoutScheme?_eq_some_iff.mp hchange
    obtain ⟨c, lost, hlost⟩ := exists_cons_of_lower hfound (by simp [hscheme])
    refine ⟨c, lost ++ ['/'], '/' :: path, ?_, ?_⟩
    · rw [haddress, String.toList_append, hlost, ← hpath]
      simp
    · rw [← String.ofList_toList (s := address'), ← hpath]
      rfl
  refine ⟨hslash, fun hchange => ?_⟩
  obtain ⟨-, -, rest, -, rfl⟩ := hslash hchange
  exact withoutScheme?_slash read? ctx hscheme hw rest

/-- An address that begins with one slash has no scheme and no host. -/
theorem splitScheme?_path {rest : List Char} (h : rest.head? ≠ some '/') :
    splitScheme? (String.ofList ('/' :: rest)) = none := by
  have hhttp : "http://".toList = 'h' :: "ttp://".toList := by decide
  have hhttps : "https://".toList = 'h' :: "ttps://".toList := by decide
  have hslashes : ['/', '/'].isPrefixOf? ('/' :: rest) = none := by
    cases rest with
    | nil => rfl
    | cons c rest =>
      have hc : c ≠ '/' := fun hc => h (by rw [hc]; rfl)
      exact Text.isPrefixOf?_cons_of_ne (Ne.symm hc) [] rest
  have hread : (String.ofList ('/' :: rest)).toList = '/' :: rest := String.toList_ofList
  rw [splitScheme?, hread, hhttp, hhttps, afterIgnoringCase?_slash (by decide),
    afterIgnoringCase?_slash (by decide), hslashes]

/-- What is left of an address is a path: one slash at its beginning. -/
theorem eq_path_of_relative? {read? : String → Option Url} {ctx : Context}
    {address address' : String} (h : relative? read? ctx address = some address') :
    ∃ (c : Char) (lost rest : List Char), address.toList = c :: lost ++ rest ∧
      rest.head? ≠ some '/' ∧ address' = String.ofList ('/' :: rest) := by
  obtain ⟨start, host, rest, url, hsite, hslashes, rfl⟩ := relative?_eq_some_iff.mp h
  obtain ⟨c, lost, hlost⟩ : ∃ c lost, start.toList = c :: lost := by
    rcases hsite.begins with hstart | hstart | rfl
    · exact exists_cons_of_lower (hstart.trans (by rfl : _ = Text.lower "http://")) (by decide)
    · exact exists_cons_of_lower (hstart.trans (by rfl : _ = Text.lower "https://")) (by decide)
    · exact ⟨'/', ['/'], rfl⟩
  have haddress : address.toList = c :: (lost ++ host.toList) ++ rest.toList := by
    rw [hsite.whole, String.toList_append, String.toList_append, hlost]
    simp
  obtain ⟨chars, rfl⟩ : ∃ chars, rest = String.ofList chars :=
    ⟨rest.toList, String.ofList_toList.symm⟩
  rw [String.toList_ofList] at hslashes haddress
  by_cases hslash : chars.head? = some '/'
  · obtain ⟨more, rfl⟩ := List.head?_eq_some_iff.mp hslash
    refine ⟨c, lost ++ host.toList ++ ['/'], more, ?_, fun hmore => ?_, asPath_slash more⟩
    · rw [haddress]
      simp
    · obtain ⟨tail, rfl⟩ := List.head?_eq_some_iff.mp hmore
      exact hslashes (List.prefix_append ['/', '/'] tail)
  · exact ⟨c, _, chars, haddress, hslash, asPath_of_head? hslash⟩

/-- **An address loses its host once.** -/
theorem shortens_relative? (read? : String → Option Url) (ctx : Context) :
    Shortens (relative? read? ctx) := by
  refine ⟨fun hchange => ?_, fun hchange => ?_⟩
  · obtain ⟨c, lost, rest, hlost, -, haddress⟩ := eq_path_of_relative? hchange
    exact ⟨c, lost, rest, hlost, haddress⟩
  · obtain ⟨-, -, rest, -, hrest, rfl⟩ := eq_path_of_relative? hchange
    rw [relative?, splitScheme?_path hrest]
    rfl

end Links

end HtmlMinify
