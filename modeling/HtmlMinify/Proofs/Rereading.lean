import HtmlMinify.Proofs.OmittedEndTags
import HtmlMinify.Proofs.Stability
import HtmlMinify.Proofs.WrittenSize

/-!
# Passes rest on what is read back

A page that was written and is read again may differ in two ways. Angle brackets in texts come back
escaped, and empty values come back as none if they were written without quotes. Neither gives a pass
new work: escaping changes no whitespace and no character reference, and no rule tells an empty value
from none. Neither is written in another way, either.

## Main statements

* `Text.collapse_escapeText`, `Whitespace.trimmed_escapeText`,
  `Comments.keepsReferences_escapeText`: what passes do to texts, and escaping them.
* `AttributeRule.Rule.Rests.asRead`: rules rest on elements that are read back.
* `Document.RestsOn.asRead`: passes rest on families that are read back.
* `Forest.markup_asRead`: what is read back is written in the same way.
-/

namespace HtmlMinify

open Text

/-! ## Escaped texts -/

/-- Escaping leaves a character that is no angle bracket. -/
theorem escapeChars_cons_of_ne {c : Char} (hc : c ≠ '<') (cs : List Char) :
    escapeChars (c :: cs) = c :: escapeChars cs := by
  rw [escapeChars, if_neg (by simp [hc])]

/-- Whitespace is no angle bracket. -/
theorem Text.ne_angle_of_isSpace {c : Char} (hc : isSpace c = true) : c ≠ '<' := by
  rintro rfl
  cases hc

/-- Escaping leaves a text without angle brackets. -/
theorem escapeChars_of_not_mem {cs : List Char} (h : '<' ∉ cs) : escapeChars cs = cs := by
  induction cs with
  | nil => rfl
  | cons c cs ih =>
    rw [List.mem_cons, not_or] at h
    rw [escapeChars_cons_of_ne (Ne.symm h.1), ih h.2]

/-- Two parts of a text are escaped one by one if the second cannot make a bracket begin markup. -/
theorem escapeChars_append (cs : List Char) {rest : List Char}
    (h : rest.head?.any beginsMarkup = false) :
    escapeChars (cs ++ rest) = escapeChars cs ++ escapeChars rest := by
  induction cs with
  | nil => rfl
  | cons c cs ih =>
    have hnext : (cs ++ rest).head?.any beginsMarkup = cs.head?.any beginsMarkup := by
      cases cs with
      | nil => exact h
      | cons d cs => rfl
    rw [List.cons_append, escapeChars, escapeChars, hnext, ih]
    split
    · rw [List.append_assoc]
    · rfl

namespace Text

/-- Escaping makes no text blank, nor does it fill a blank one. -/
theorem isBlank_escapeText (s : String) : isBlank (escapeText s) = isBlank s := by
  rw [isBlank, escapeText, String.toList_ofList, all_isSpace_escapeChars, isBlank]

/-- **Escaping twice is escaping once**: no bracket that is left begins markup. -/
theorem escapeText_escapeText (s : String) : escapeText (escapeText s) = escapeText s := by
  rw [escapeText, escapeText, String.toList_ofList, escapeChars_of_isPlain (isPlain_escapeChars _)]

/-- Escaping and collapsing can change places, for neither looks at what the other changes. -/
theorem collapseFrom_escapeChars (inRun : Bool) (cs : List Char) :
    collapseFrom inRun (escapeChars cs) = escapeChars (collapseFrom inRun cs) := by
  induction cs generalizing inRun with
  | nil => rfl
  | cons c cs ih =>
    cases hc : isSpace c with
    | true =>
      rw [escapeChars_cons_of_ne (ne_angle_of_isSpace hc), collapseFrom, collapseFrom, if_pos hc,
        if_pos hc, ih]
      split
      · rfl
      · rw [escapeChars_cons_of_ne (by decide)]
    | false =>
      rw [collapseFrom_cons hc, escapeChars, escapeChars, any_beginsMarkup_collapseFrom]
      split
      · change collapseFrom inRun ('&' :: 'l' :: 't' :: ';' :: escapeChars cs) = _
        rw [collapseFrom_cons (by decide), collapseFrom_cons (by decide),
          collapseFrom_cons (by decide), collapseFrom_cons (by decide), ih]
        rfl
      · rw [collapseFrom_cons hc, ih]

/-- A text is escaped and collapsed in any order. -/
theorem collapse_escapeText (s : String) : collapse (escapeText s) = escapeText (collapse s) := by
  rw [collapse, escapeText, String.toList_ofList, collapseFrom_escapeChars, escapeText, collapse,
    String.toList_ofList]

/-- A text that does not begin with whitespace stays as it is at its start. -/
theorem trimStartChars_cons {c : Char} (hc : isSpace c = false) (cs : List Char) :
    trimStartChars (c :: cs) = c :: cs :=
  trimStartChars_append_cons [] hc cs

/-- Escaping and trimming the start of a text can change places. -/
theorem trimStartChars_escapeChars (cs : List Char) :
    trimStartChars (escapeChars cs) = escapeChars (trimStartChars cs) := by
  induction cs with
  | nil => rfl
  | cons c cs ih =>
    cases hc : isSpace c with
    | true =>
      have hskip : ∀ cs, trimStartChars (c :: cs) = trimStartChars cs := by
        intro cs
        rw [trimStartChars, List.dropWhile_cons, if_pos hc, trimStartChars]
      rw [escapeChars_cons_of_ne (ne_angle_of_isSpace hc), hskip, hskip, ih]
    | false =>
      rw [trimStartChars_cons hc, escapeChars]
      split
      · exact trimStartChars_cons (by decide) _
      · exact trimStartChars_cons hc _

/-- At the end of a text whitespace is trimmed if nothing but whitespace follows. -/
theorem trimEndChars_cons (c : Char) (cs : List Char) :
    trimEndChars (c :: cs) =
      if isSpace c && cs.all isSpace then [] else c :: trimEndChars cs := by
  cases hc : isSpace c with
  | false => exact trimEndChars_append_cons [] hc cs
  | true =>
    rcases all_isSpace_or_exists cs with hall | ⟨before, d, after, rfl, -, hd⟩
    · rw [hall, Bool.and_self, if_pos rfl]
      exact trimEndChars_of_all (by rw [List.all_cons, hc, hall]; rfl)
    · have hnot : (before ++ d :: after).all isSpace = false := by simp [hd]
      rw [hnot, Bool.and_false, if_neg Bool.false_ne_true, trimEndChars_append_cons before hd,
        ← List.cons_append, trimEndChars_append_cons (c :: before) hd, List.cons_append]

/-- What follows an angle bracket makes it begin markup with and without whitespace at the end. -/
theorem any_beginsMarkup_trimEndChars (cs : List Char) :
    (trimEndChars cs).head?.any beginsMarkup = cs.head?.any beginsMarkup := by
  cases cs with
  | nil => rfl
  | cons c cs =>
    rw [trimEndChars_cons]
    split
    · next hspace =>
      rw [Bool.and_eq_true] at hspace
      exact (utf8Size_of_isSpace hspace.1).2.symm
    · rfl

/-- Escaping and trimming the end of a text can change places. -/
theorem trimEndChars_escapeChars (cs : List Char) :
    trimEndChars (escapeChars cs) = escapeChars (trimEndChars cs) := by
  induction cs with
  | nil => rfl
  | cons c cs ih =>
    have hsolid : ∀ {d : Char} cs, isSpace d = false →
        trimEndChars (d :: cs) = d :: trimEndChars cs := by
      intro d cs hd
      rw [trimEndChars_cons, hd, Bool.false_and, if_neg Bool.false_ne_true]
    cases hc : isSpace c with
    | true =>
      have hne := ne_angle_of_isSpace hc
      rw [escapeChars_cons_of_ne hne, trimEndChars_cons, trimEndChars_cons,
        all_isSpace_escapeChars, ih]
      split
      · rfl
      · rw [escapeChars_cons_of_ne hne]
    | false =>
      rw [hsolid cs hc, escapeChars, escapeChars, any_beginsMarkup_trimEndChars]
      split
      · change trimEndChars ('&' :: 'l' :: 't' :: ';' :: escapeChars cs) = _
        rw [hsolid _ (by decide), hsolid _ (by decide), hsolid _ (by decide), hsolid _ (by decide),
          ih]
        rfl
      · rw [hsolid _ hc, ih]

end Text

/-- A text is escaped and trimmed in any order. -/
theorem Whitespace.trimmed_escapeText (parent : Content) (before after : Option Content)
    (value : String) : trimmed parent before after (escapeText value) =
      escapeText (trimmed parent before after value) := by
  have hstart : ∀ s, trimStart (escapeText s) = escapeText (trimStart s) := by
    intro s
    rw [trimStart, escapeText, String.toList_ofList, trimStartChars_escapeChars, escapeText,
      trimStart, String.toList_ofList]
  have hend : ∀ s, trimEnd (escapeText s) = escapeText (trimEnd s) := by
    intro s
    rw [trimEnd, escapeText, String.toList_ofList, trimEndChars_escapeChars, escapeText, trimEnd,
      String.toList_ofList]
  rw [trimmed, trimmed, isBlank_escapeText]
  split
  · rfl
  · cases blockEdge before parent <;> cases blockEdge after parent <;> simp [hstart, hend]

/-- Escaping neither opens nor closes a reference at the edges of a text. -/
theorem Comments.keepsReferences_escapeText : KeepsReferences escapeText where
  opens s h := by
    obtain ⟨before, name, hs, hname⟩ := endsInOpenReference_iff.mp h
    have hplain : escapeChars ('&' :: name) = '&' :: name := by
      refine escapeChars_of_not_mem fun hmem => ?_
      rcases List.mem_cons.mp hmem with heq | hmem
      · cases heq
      · cases hname _ hmem
    refine endsInOpenReference_iff.mpr ⟨escapeChars before, name, ?_, hname⟩
    rw [escapeText, String.toList_ofList, hs, escapeChars_append before rfl, hplain]
  goesOn s h := by
    obtain ⟨c, rest, hs, hc⟩ := continuesReference_iff.mp h
    refine continuesReference_iff.mpr ⟨c, escapeChars rest, ?_, hc⟩
    have hne : c ≠ '<' := by
      rintro rfl
      cases hc
    rw [escapeText, String.toList_ofList, hs, escapeChars_cons_of_ne hne]

/-! ## Attributes that are read back -/

/-- No `=` begins the name, and the value holds not both kinds of quotes. -/
structure Attribute.Clean (a : Attribute) : Prop where
  name : a.beginsWithEq = false
  value : ∀ value ∈ a.value, ¬ ('\x22' ∈ value.toList ∧ '\x27' ∈ value.toList)

instance (a : Attribute) : Decidable a.Clean :=
  decidable_of_iff
    (a.beginsWithEq = false ∧
      ∀ value ∈ a.value, ¬ ('\x22' ∈ value.toList ∧ '\x27' ∈ value.toList))
    ⟨fun ⟨hname, hvalue⟩ => ⟨hname, hvalue⟩, fun ⟨hname, hvalue⟩ => ⟨hname, hvalue⟩⟩

namespace Attribute

variable {a a' : Attribute}

/-- An attribute is read back with its name. -/
theorem name_asRead (options : WriteOptions) (a : Attribute) :
    (a.asRead options).name = a.name := by
  rw [asRead]
  split <;> rfl

/-- A clean attribute is read as it is, but for an empty value. -/
theorem Clean.asRead_eq (h : a.Clean) (options : WriteOptions) :
    a.asRead options = a ∨
      options.omitQuotes = true ∧ a.value = some "" ∧ a.asRead options = { a with value := none } := by
  obtain ⟨name, value⟩ := a
  cases value with
  | none => exact .inl rfl
  | some value =>
    have hkeep : valueAsRead value = value := by
      refine if_neg ?_
      simpa using h.value value rfl
    rw [asRead]
    split
    · next hnone => cases hnone
    · next value' hvalue =>
      cases hvalue
      split
      · next hempty =>
        rw [Bool.and_eq_true, String.isEmpty_iff] at hempty
        exact .inr ⟨hempty.1, congrArg some hempty.2, rfl⟩
      · rw [hkeep]
        exact .inl rfl

/-- A clean attribute is read back with its value, no value counting as an empty one. -/
theorem Clean.valueOrEmpty_asRead (h : a.Clean) (options : WriteOptions) :
    (a.asRead options).valueOrEmpty = a.valueOrEmpty := by
  rcases h.asRead_eq options with heq | ⟨-, hvalue, heq⟩
  · rw [heq]
  · rw [heq, valueOrEmpty, valueOrEmpty, hvalue]
    rfl

/-- The value of a clean attribute that is read back is written in the same way. -/
theorem Clean.writeValue_asRead (h : a.Clean) (options : WriteOptions) :
    writeValue options (a.asRead options).value = writeValue options a.value := by
  rcases h.asRead_eq options with heq | ⟨hquotes, hvalue, heq⟩
  · rw [heq]
  · rw [heq, hvalue, writeValue, writeValue, hquotes]
    rfl

/-- It is written without quotes if it was before. -/
theorem Clean.writesBare_asRead (h : a.Clean) (options : WriteOptions) :
    (a.asRead options).value.any (writesBare options) = a.value.any (writesBare options) := by
  rcases h.asRead_eq options with heq | ⟨-, hvalue, heq⟩
  · rw [heq]
  · rw [heq, hvalue, Option.any_some, writesBare]
    exact (Bool.and_false _).symm

/-- An attribute stays clean when its value shrinks. -/
theorem Clean.shrinks (h : a.Clean) (hshrinks : a.Shrinks a') : a'.Clean := by
  cases hshrinks with
  | same => exact h
  | @value value value' hvalue hshrinks =>
    refine ⟨h.name, fun v hv => ?_⟩
    cases hv
    rintro ⟨hdouble, hsingle⟩
    refine h.value value hvalue ⟨?_, ?_⟩
    · exact List.count_pos_iff.mp
        (Nat.lt_of_lt_of_le (List.count_pos_iff.mpr hdouble) hshrinks.doubles)
    · exact List.count_pos_iff.mp
        (Nat.lt_of_lt_of_le (List.count_pos_iff.mpr hsingle) hshrinks.singles)

end Attribute

namespace Attributes

variable {as as' : Attributes}

/-- Names and values as pages see them: a bare attribute has the empty value. -/
def shown (as : Attributes) : List (String × String) :=
  as.toList.map fun a => (a.name, a.valueOrEmpty)

/-- Clean attributes that are read back show what they showed. -/
theorem shown_asRead (h : ∀ a ∈ as.toList, a.Clean) (options : WriteOptions) :
    (as.asRead options).shown = as.shown := by
  rw [shown, asRead, List.map_map, shown]
  refine List.map_congr_left fun a ha => ?_
  rw [Function.comp_apply, Attribute.name_asRead, (h a ha).valueOrEmpty_asRead]

/-- The value that is found under a name depends on what is shown only. -/
theorem value?_congr (h : as'.shown = as.shown) (name : String) :
    as'.value? name = as.value? name := by
  have hshown : ∀ as : Attributes, as.value? name =
      (as.shown.find? fun x => sameIgnoringCase x.1 name).map (·.2) := by
    intro as
    rw [shown, List.find?_map, Option.map_map]
    rfl
  rw [hshown, hshown, h]

/-- So does whether an attribute is found. -/
theorem contains_congr (h : as'.shown = as.shown) (name : String) :
    as'.contains name = as.contains name := by
  have hshown : ∀ as : Attributes, as.contains name =
      as.shown.any fun x => lower x.1 == lower name := by
    intro as
    rw [shown, List.any_map]
    rfl
  rw [hshown, hshown, h]

/-- Clean attributes that are read back are written in the same way. -/
theorem write_asRead (h : ∀ a ∈ as.toList, a.Clean) (options : WriteOptions) :
    (as.asRead options).write options = as.write options := by
  rw [write, asRead, List.map_map, write]
  congr 1
  refine List.map_congr_left fun a ha => ?_
  rw [Function.comp_apply, Attribute.write, Attribute.name_asRead, (h a ha).writeValue_asRead,
    Attribute.write]

/-- The last of them ends without a quote if it did before. -/
theorem endsBare_asRead (h : ∀ a ∈ as.toList, a.Clean) (options : WriteOptions) :
    (as.asRead options).endsBare options = as.endsBare options := by
  have hbind : ∀ a? : Option Attribute, (a?.bind (·.value)).any (writesBare options) =
      a?.any fun a => a.value.any (writesBare options) := by
    intro a?
    cases a? <;> rfl
  rw [endsBare, endsBare, hbind, hbind, asRead, List.getLast?_map]
  cases hlast : as.toList.getLast? with
  | none => rfl
  | some a => exact (h a (List.mem_of_getLast? hlast)).writesBare_asRead options

end Attributes

namespace AttributeRule

/-! ### Conditions of rules -/

/-- The condition sees the tag, and attributes as pages see them. -/
def Sees (cond : Content → Bool) : Prop :=
  ∀ c c' : Content, c.Alike c' → c'.attributes.shown = c.attributes.shown → cond c' = cond c

namespace Sees

variable {cond cond' : Content → Bool}

/-- Two conditions that look at what is shown do so together. -/
theorem and (h : Sees cond) (h' : Sees cond') : Sees fun c => cond c && cond' c :=
  fun c c' halike hshown =>
    congrArg₂ (· && ·) (h c c' halike hshown) (h' c c' halike hshown)

/-- One of two conditions that look at what is shown does so. -/
theorem or (h : Sees cond) (h' : Sees cond') : Sees fun c => cond c || cond' c :=
  fun c c' halike hshown =>
    congrArg₂ (· || ·) (h c c' halike hshown) (h' c c' halike hshown)

theorem const (b : Bool) : Sees fun _ => b :=
  fun _ _ _ _ => rfl

/-- The tag of an element is shown. -/
theorem isTag (tag : String) : Sees (·.isTag tag) :=
  fun _ _ halike _ => halike.isTag_eq tag

/-- What depends on two values is seen. -/
theorem values (test : Option String → Option String → Bool) (name name' : String) :
    Sees fun c => test (c.attributes.value? name) (c.attributes.value? name') :=
  fun _ _ _ hshown =>
    congrArg₂ test (Attributes.value?_congr hshown name) (Attributes.value?_congr hshown name')

/-- Whether an attribute has a certain value is shown. -/
theorem valueIs (name expected : String) :
    Sees (AttributeRule.valueIs ·.attributes name expected) := by
  have hvalue : ∀ as : Attributes, AttributeRule.valueIs as name expected =
      (as.value? name).any fun value => sameIgnoringCase (trim value) expected := by
    intro as
    rw [AttributeRule.valueIs, Attributes.value?, Option.any_map]
  intro c c' _ hshown
  simp only [hvalue, Attributes.value?_congr hshown]

/-- Whether it has one of certain values is shown. -/
theorem valueIsAny (name : String) (expected : List String) :
    Sees fun c => expected.any (AttributeRule.valueIs c.attributes name) := by
  intro c c' halike hshown
  refine congrArg expected.any (funext fun value => ?_)
  exact valueIs name value c c' halike hshown

/-- Whether an element is a link to a style sheet is shown. -/
theorem isStylesheetLink : Sees AttributeRule.isStylesheetLink :=
  (isTag "link").and (values (fun rel _ => rel.any fun rel =>
    (words rel).any (sameIgnoringCase · "stylesheet")) "rel" "rel")

/-- The condition for dropping a usual value looks at what is shown. -/
theorem usualValue {isMeant : Content → Bool} (h : Sees isMeant) (name expected : String) :
    Sees (AttributeRule.usualValue isMeant name expected).cond :=
  h.and (valueIs name expected)

/-- So does that for dropping the name of an anchor. -/
theorem anchorName : Sees AttributeRule.anchorName.cond :=
  ((isTag "a").and (values (fun id _ => id.isSome) "id" "id")).and
    (values (fun name id => name == id) "name" "id")

/-- So does that for dropping the empty value of an input. -/
theorem emptyInputValue : Sees AttributeRule.emptyInputValue.cond := by
  refine ((isTag "input").and (values (fun value _ => value == some "") "value" "value")).and ?_
  exact fun c c' halike hshown =>
    congrArg not (valueIsAny "type" emptyValueShows c c' halike hshown)

end Sees

/-- **A rule that drops an attribute rests on an element that shows the same.** -/
theorem Drop.Rests.sees {d : Drop} {c c' : Content} (h : d.Rests c) (hsees : Sees d.cond)
    (halike : c.Alike c') (hshown : c'.attributes.shown = c.attributes.shown) : d.Rests c' := by
  intro hcond
  rw [Attributes.contains_congr hshown]
  exact h (hsees c c' halike hshown ▸ hcond)

/-! ### Rules -/

/-- The conditions of the rule see attributes as pages see them. -/
def Rule.SeesValues : Rule → Prop
  | dropOne d => Sees d.cond
  | dropAll drops _ => ∀ d ∈ drops, Sees d.cond
  | _ => True

/-- **A rule rests on attributes that are read back.** -/
theorem Rule.Rests.asRead {rule : Rule} {c c' : Content} (h : rule.Rests c)
    (hsees : rule.SeesValues) (halike : c.Alike c') (hclean : ∀ a ∈ c.attributes.toList, a.Clean)
    {options : WriteOptions} (hread : c'.attributes = c.attributes.asRead options) :
    rule.Rests c' := by
  have hshown : c'.attributes.shown = c.attributes.shown := by
    rw [hread, Attributes.shown_asRead hclean]
  have hcomes : ∀ a' ∈ c'.attributes.toList, ∃ a ∈ c.attributes.toList, a' = a.asRead options := by
    intro a' ha'
    rw [hread] at ha'
    obtain ⟨a, ha, rfl⟩ := List.mem_map.mp ha'
    exact ⟨a, ha, rfl⟩
  cases rule with
  | readdress change? shortens =>
    intro a' ha'
    obtain ⟨a, ha, rfl⟩ := hcomes a' ha'
    rcases (hclean a ha).asRead_eq options with heq | ⟨-, -, heq⟩
    · rw [heq]
      exact h a ha
    -- No value is no address.
    · rw [heq, Links.newAddress?, Option.bind_none, ite_self]
  | dropOne d => exact Drop.Rests.sees h hsees halike hshown
  | dropAll drops fades => exact fun d hd => (h d hd).sees (hsees d hd) halike hshown
  | dropEmpty =>
    intro a' ha'
    obtain ⟨a, ha, rfl⟩ := hcomes a' ha'
    have his : (a.asRead options).is = a.is :=
      funext (Attribute.is_congr (Attribute.name_asRead options a))
    -- The rule takes an attribute without a value for an empty one.
    rw [saysNothing, his, Attribute.name_asRead, (hclean a ha).valueOrEmpty_asRead]
    exact h a ha
  | orderClasses =>
    intro a' ha'
    obtain ⟨a, ha, rfl⟩ := hcomes a' ha'
    rcases (hclean a ha).asRead_eq options with heq | ⟨-, -, heq⟩
    · rw [heq]
      exact h a ha
    · rw [heq, inOrder]
      exact ite_self _
  | orderNames =>
    have hordered : Ordered (c.attributes.asRead options) :=
      Ordered.map h (Attribute.name_asRead options)
    rwa [← hread] at hordered

end AttributeRule

/-- The rules of all passes see attributes as pages see them. -/
theorem Pass.seesValues_rule {read? : String → Option Url} {ctx : Context} {pass : Pass}
    {rule : AttributeRule.Rule} (h : pass.rule? read? ctx = some rule) : rule.SeesValues := by
  cases pass with
  | relativeLinks =>
    rw [rule?] at h
    split at h
    · cases h
    · cases h
      trivial
  | removeDefaultAttributes =>
    cases h
    intro d hd
    obtain ⟨⟨tag, name, value⟩, -, rfl⟩ := List.mem_map.mp hd
    exact ((AttributeRule.Sees.isTag tag).and (.const _)).usualValue name value
  | removeAnchorName =>
    cases h
    exact .anchorName
  | removeScriptCharset =>
    cases h
    exact .isTag "script"
  | removeScriptType =>
    cases h
    intro d hd
    rw [AttributeRule.scriptTypes, List.mem_cons, List.mem_singleton] at hd
    rcases hd with rfl | rfl
    · exact (AttributeRule.Sees.isTag "script").and (.valueIsAny "type" _)
    · exact (AttributeRule.Sees.isTag "script").usualValue _ _
  | removeStylesheetLinkType =>
    cases h
    exact .usualValue .isStylesheetLink _ _
  | removeEmptyInputValue =>
    cases h
    exact .emptyInputValue
  | removeStyleAndLinkType =>
    cases h
    exact .usualValue ((AttributeRule.Sees.isTag "style").or .isStylesheetLink) _ _
  | removeDefaultMedia =>
    cases h
    exact .usualValue ((AttributeRule.Sees.isTag "style").or (.isTag "link")) _ _
  | removeButtonType =>
    cases h
    exact .usualValue (.isTag "button") _ _
  | _ => cases h <;> trivial

/-! ## Nodes that are read back -/

/-- The node holds nothing that nodes of its kind do not use. -/
structure Content.Sparing (c : Content) : Prop where
  name : c.isElement = false → c.name = ""
  value : c.isElement = true → c.value = ""

/-- The node holds nothing that nodes of its kind do not use, and its attributes are clean. -/
structure Content.Faithful (c : Content) : Prop extends c.Sparing where
  clean : c.isElement = true → ∀ a ∈ c.attributes.toList, a.Clean

namespace Content

variable {c : Content}

theorem isElement_of_kind (h : c.kind = .element) : c.isElement = true := by
  rw [isElement, h]
  rfl

/-- A faithful node is read back alike. -/
theorem Faithful.alike_asRead (h : c.Faithful) (options : WriteOptions) (raw : Bool) :
    c.Alike (c.asRead options raw) := by
  refine ⟨kind_asRead c options raw, ?_⟩
  rw [asRead]
  split
  · rfl
  · next hkind => exact (h.name (by rw [isElement, hkind]; rfl)).symm
  · next hkind _ => exact (h.name (by rw [isElement]; exact decide_eq_false hkind)).symm

/-- Whatever is no text is read back with its value. -/
theorem Faithful.value_asRead (h : c.Faithful) (options : WriteOptions) (raw : Bool)
    (htext : c.isText = false) : (c.asRead options raw).value = c.value := by
  rw [asRead]
  split
  · next hkind => exact (h.value (isElement_of_kind hkind)).symm
  · next hkind =>
    rw [isText, hkind] at htext
    cases htext
  · rfl

/-- A text is read back escaped, unless it is raw. -/
theorem value_asRead_of_isText (htext : c.isText = true) (options : WriteOptions) (raw : Bool) :
    (c.asRead options raw).value = if raw then c.value else escapeText c.value := by
  rw [isText, decide_eq_true_eq] at htext
  rw [asRead_text htext]
  rfl

/-- What is read back tidies the same siblings. -/
theorem tidies_asRead {l : List Content} (h : ∀ c ∈ l, c.Faithful) (options : WriteOptions)
    (raw : Bool) : Comments.Tidies l (l.map (·.asRead options raw)) := by
  refine Comments.tidies_map fun c hc =>
    ⟨(h c hc).alike_asRead options raw, (h c hc).value_asRead options raw, fun htext => ?_⟩
  rw [value_asRead_of_isText htext]
  cases raw with
  | true => exact ⟨rfl, id, id⟩
  | false =>
    exact ⟨isBlank_escapeText c.value, Comments.keepsReferences_escapeText.opens c.value,
      Comments.keepsReferences_escapeText.goesOn c.value⟩

/-- The start tag of a faithful element that is read back is the same. -/
theorem Faithful.writeStart_asRead (h : c.Faithful) (hkind : c.kind = .element)
    (options : WriteOptions) (raw : Bool) :
    (c.asRead options raw).writeStart options = c.writeStart options := by
  have hclean := h.clean (isElement_of_kind hkind)
  rw [asRead_element hkind, writeStart, writeStart]
  change "<" ++ c.name ++ (c.attributes.asRead options).write options ++
    (if c.selfClosing then
      (if (c.attributes.asRead options).endsBare options then " />" else "/>") else ">") = _
  rw [Attributes.write_asRead hclean, Attributes.endsBare_asRead hclean]

end Content

/-! ## Families that are read back -/

/-- The second family is the first one as it is read back. -/
structure Family.Rereads (options : WriteOptions) (fam fam' : Family) : Prop where
  free_eq : fam'.free = fam.free
  alike : fam.content.Alike fam'.content
  faithful : ∀ c ∈ fam.contents, c.Faithful
  contents_eq : ∃ raw, fam'.contents = fam.contents.map (·.asRead options raw)

/-- **Passes rest on families that are read back.** -/
theorem Document.RestsOn.asRead {read? : String → Option Url} {ctx : Context} {pass : Pass}
    {options : WriteOptions} {fam fam' : Family} (h : RestsOn (pass.work read? ctx) fam)
    (hread : fam.Rereads options fam') :
    RestsOn (pass.work read? ctx) fam' := by
  obtain ⟨hfree, hparent, hfaithful, raw, hcontents⟩ := hread
  have hcomes : ∀ c' ∈ fam'.contents, ∃ c ∈ fam.contents, c.Faithful ∧
      c' = c.asRead options raw := by
    intro c' hc'
    rw [hcontents] at hc'
    obtain ⟨c, hc, rfl⟩ := List.mem_map.mp hc'
    exact ⟨c, hc, hfaithful c hc, rfl⟩
  cases hwork : pass.work read? ctx with
  | comments =>
    rw [hwork] at h
    rw [RestsOn, hcontents]
    -- Escaping neither opens nor closes a reference, as tidying texts does not.
    exact Comments.Settled.tidies h (Content.tidies_asRead hfaithful options raw) id
  | collapse =>
    rw [hwork] at h
    intro hfree' c' hc' htext
    obtain ⟨c, hc, -, rfl⟩ := hcomes c' hc'
    rw [Content.isText_asRead] at htext
    have hcollapsed := h (hfree ▸ hfree') c hc htext
    rw [Content.value_asRead_of_isText htext]
    split
    · exact hcollapsed
    · rw [collapse_escapeText, hcollapsed]
  | trim =>
    rw [hwork] at h
    intro hfree'
    have hedge : Whitespace.blockEdge none fam'.content = Whitespace.blockEdge none fam.content :=
      hparent.isBlock_eq
    rw [hcontents]
    refine (h (hfree ▸ hfree')).map hparent hedge
      (fun c hc => (hfaithful c hc).alike_asRead options raw) ?_
    intro c _ htext before after htrimmed
    rw [Content.value_asRead_of_isText htext]
    split
    · exact htrimmed
    · rw [Whitespace.trimmed_escapeText, htrimmed]
  | blanks =>
    rw [hwork] at h
    intro hfree' c' hc'
    obtain ⟨c, hc, hfaithful, rfl⟩ := hcomes c' hc'
    have hfilled := h (hfree ▸ hfree') c hc
    rw [Content.isBlankText] at hfilled
    rw [Content.isBlankText, Content.isText_asRead]
    cases htext : c.isText with
    | false => rfl
    | true =>
      rw [htext] at hfilled
      rw [Content.value_asRead_of_isText htext]
      split
      · exact hfilled
      · rw [isBlank_escapeText]
        exact hfilled
  | rule r =>
    rw [hwork] at h
    intro c' hc' helement
    obtain ⟨c, hc, hfaithful, rfl⟩ := hcomes c' hc'
    have halike := hfaithful.alike_asRead options raw
    rw [halike.isElement_eq] at helement
    have hkind : c.kind = .element := by
      rwa [Content.isElement, decide_eq_true_eq] at helement
    refine (h c hc helement).asRead (Pass.seesValues_rule (rule?_of_work hwork)) halike
      (hfaithful.clean helement) (?_ : _ = c.attributes.asRead options)
    rw [Content.asRead_element hkind]
    rfl
  | nothing => trivial

namespace Forest

variable {options : WriteOptions}

/-- The contents of a forest have the contents of its roots. -/
theorem roots_contents (f : NumberedForest) : f.contents.roots = f.roots.map (·.2) := by
  induction f with
  | nil => rfl
  | node label children siblings _ ih => rw [contents_node, roots, roots, List.map_cons, ih]

/-- The roots of a forest are read back one by one. -/
theorem roots_asRead (f : Forest Content) (outer : List String) :
    (f.asRead options outer).roots = f.roots.map (·.asRead options (rawIn outer)) := by
  induction f with
  | nil => rfl
  | node c children siblings _ ih => rw [asRead, roots, roots, List.map_cons, ih]

/-- The roots of a forest are read back inside `outer`. -/
theorem rereads_roots {f f' : NumberedForest} {outer : List String}
    (hread : f'.contents = f.contents.asRead options outer) :
    f'.roots.map (·.2) = (f.roots.map (·.2)).map (·.asRead options (rawIn outer)) := by
  rw [← roots_contents, hread, roots_asRead, roots_contents]

/-- **The families of what is read back are the families that were written, read back.** -/
theorem exists_rereads {f f' : NumberedForest} {outer : List String} {free : Bool}
    (hread : f'.contents = f.contents.asRead options outer)
    (hfaithful : ∀ c ∈ f.contents.toList, c.Faithful) :
    ∀ fam' ∈ f'.families free, ∃ fam ∈ f.families free, fam.Rereads options fam' := by
  induction f generalizing f' outer free with
  | nil =>
    rw [contents_eq_nil_iff.mp hread]
    intro fam' hfam'
    cases hfam'
  | node label children siblings ihc ihs =>
    obtain ⟨id, c⟩ := label
    cases f' with
    | nil => cases hread
    | node label' children' siblings' =>
      obtain ⟨id', c'⟩ := label'
      rw [contents_node] at hfaithful
      rw [contents_node, contents_node, asRead] at hread
      obtain ⟨rfl, hchildren, hsiblings⟩ := Forest.node.inj hread
      have halike := (hfaithful c List.mem_cons_self).alike_asRead options (rawIn outer)
      have hbelow : ∀ d ∈ children.contents.toList, d.Faithful := fun d hd =>
        hfaithful d (mem_of_mem_below hd)
      have hbeside : ∀ d ∈ siblings.contents.toList, d.Faithful := fun d hd =>
        hfaithful d (mem_of_mem_beside hd)
      intro fam' hfam'
      rw [families, halike.preservesText_eq, List.mem_cons, List.mem_append] at hfam'
      rcases hfam' with rfl | hfam' | hfam'
      · refine ⟨_, List.mem_cons_self, rfl, halike, fun d hd => hbelow d ?_, _,
          rereads_roots hchildren⟩
        rw [Family.contents, ← roots_contents] at hd
        exact mem_toList_of_mem_roots hd
      · obtain ⟨fam, hfam, hrereads⟩ := ihc hchildren hbelow fam' hfam'
        exact ⟨fam, mem_of_mem_below hfam, hrereads⟩
      · obtain ⟨fam, hfam, hrereads⟩ := ihs hsiblings hbeside fam' hfam'
        exact ⟨fam, mem_of_mem_beside hfam, hrereads⟩

end Forest

namespace Document

/-- Each family of a tree that is read back was one of the tree that was written. -/
theorem exists_rereads {options : WriteOptions} {root root' : NodeId} {f f' : NumberedForest}
    (hread : f'.contents = f.contents.asRead options [])
    (hfaithful : ∀ c ∈ f.contents.toList, c.Faithful) :
    ∀ fam' ∈ familiesOf root' f', ∃ fam ∈ familiesOf root f, fam.Rereads options fam' := by
  intro fam' hfam'
  rw [familiesOf, Forest.families, List.mem_cons, List.mem_append] at hfam'
  rcases hfam' with rfl | hfam' | hfam'
  · refine ⟨_, List.mem_cons_self, rfl, .refl _, fun c hc => hfaithful c ?_, _,
      Forest.rereads_roots hread⟩
    rw [Family.contents, ← Forest.roots_contents] at hc
    exact Forest.mem_toList_of_mem_roots hc
  · obtain ⟨fam, hfam, hrereads⟩ := Forest.exists_rereads hread hfaithful fam' hfam'
    exact ⟨fam, Forest.mem_of_mem_below hfam, hrereads⟩
  · cases hfam'

end Document

/-! ## Writing what is read back -/

/-- An end tag depends on the kind and the name of the element and of the next node. -/
theorem Content.closer?_congr {options : WriteOptions} {quirks : Bool} {outer : List String}
    {closer : Closer} {c c' : Content} (h : c.Alike c') {next next' : Option Content}
    (hnext : next'.map (fun n => (n.kind, n.name)) = next.map (fun n => (n.kind, n.name))) :
    c'.closer? options quirks outer closer next' = c.closer? options quirks outer closer next := by
  unfold closer? Placed.closer? Placed.mayOmitEnd isElement
  cases next with
  | none =>
    cases next' with
    | none => simp only [h.name, Option.map_none]
    | some n' => cases hnext
  | some n =>
    cases next' with
    | none => cases hnext
    | some n' =>
      obtain ⟨hkind, hname⟩ := Prod.mk.inj (Option.some.inj hnext)
      simp only [h.name, Option.map_some, hkind, hname, Option.any_some, Option.isNone_some]

namespace Forest

/-- What is read back begins with a node of the same kind and name. -/
theorem head?_asRead {options : WriteOptions} {f : Forest Content}
    (hfaithful : ∀ c ∈ f.toList, c.Faithful) (outer : List String) :
    (f.asRead options outer).head?.map (fun n => (n.kind, n.name)) =
      f.head?.map fun n => (n.kind, n.name) := by
  cases f with
  | nil => rfl
  | node c children siblings =>
    have halike := (hfaithful c List.mem_cons_self).alike_asRead options (rawIn outer)
    rw [asRead, head?, head?, Option.map_some, Option.map_some, halike.kind, halike.name]

/-- **What is read back is written in the same way.** -/
theorem markup_asRead {f : Forest Content} {outer : List String} (hbuilt : f.Built outer)
    (hfaithful : ∀ c ∈ f.toList, c.Faithful) (options : WriteOptions) (quirks : Bool)
    (closer : Closer) :
    (f.asRead options outer).markup options quirks outer closer =
      f.markup options quirks outer closer := by
  induction f generalizing outer closer with
  | nil => rfl
  | node c children siblings ihc ihs =>
    obtain ⟨hnode, hchildren, hsiblings⟩ := hbuilt
    have hhere := hfaithful c List.mem_cons_self
    have hbelow := ihc hchildren fun d hd =>
      hfaithful d (mem_of_mem_below hd)
    have hafter : ∀ d ∈ siblings.toList, d.Faithful := fun d hd =>
      hfaithful d (mem_of_mem_beside hd)
    have hbeside := ihs hsiblings hafter closer
    have hread := c.kind_asRead options (rawIn outer)
    have hdeclaration : c.isDeclaration = true → c.isText = false →
        ((node c children siblings).asRead options outer).markup options quirks outer closer =
          (node c children siblings).markup options quirks outer closer := by
      intro hdeclared htext
      have hdeclared' : (c.asRead options (rawIn outer)).isDeclaration = true := by
        rwa [Content.isDeclaration, hread]
      rw [asRead, markup_of_isDeclaration hdeclared', markup_of_isDeclaration hdeclared, hbeside,
        Content.writeLeaf, hread, hhere.value_asRead options _ htext, Content.writeLeaf]
    cases hkind : c.kind with
    | document =>
      have hspelled := hnode.spelled
      rw [Content.Spelled, hkind] at hspelled
      exact hspelled.elim
    | text =>
      have htext : c.isText = true := by
        rw [Content.isText, hkind]
        rfl
      rw [asRead, markup_of_text (hread.trans hkind), markup_of_text hkind, hbeside,
        Content.value_asRead_of_isText htext]
      split
      · rfl
      · rw [escapeText_escapeText]
    | element =>
      have halike := hhere.alike_asRead options (rawIn outer)
      have hstart := hhere.writeStart_asRead hkind options (rawIn outer)
      have hsame : (c.asRead options (rawIn outer)).isLeafElement = c.isLeafElement := by
        rw [Content.asRead_element hkind]
        rfl
      cases hleaf : c.isLeafElement with
      | true =>
        have hnil := hnode.childless (.inr hleaf)
        rw [asRead, markup_of_leafElement (hread.trans hkind) (hsame.trans hleaf)
          (by rw [hnil]; rfl), markup_of_leafElement hkind hleaf hnil, hstart, hbeside]
      | false =>
        -- Whether an end tag is left out depends on names only.
        have hcloser : (c.asRead options (rawIn outer)).closer? options quirks outer closer
            (siblings.asRead options outer).head? =
              c.closer? options quirks outer closer siblings.head? :=
          Content.closer?_congr halike (head?_asRead hafter outer)
        rw [asRead, markup_of_element (hread.trans hkind) (hsame.trans hleaf),
          markup_of_element hkind hleaf, hstart, hcloser, halike.name, hbelow, hbeside,
          Content.endTag, halike.name, Content.endTag]
    | _ =>
      exact hdeclaration (by rw [Content.isDeclaration, hkind])
        (by rw [Content.isText, hkind]; rfl)

end Forest

end HtmlMinify
