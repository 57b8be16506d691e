import HtmlMinify.Pass.Apply
import HtmlMinify.Proofs.AttributeRules

/-!
# The rules of the passes, in their order

Each pass on attributes applies one of six kinds of rule (`AttributeRule.Rule`). A rule rests on an
element if it keeps its attributes; it rests where it has been applied. Most rules also rest after
any other rule, since those only revise attributes, and no rule puts attributes out of order. For two
rules the order of the passes counts: no rule that comes later drops the type of an input, or gives
an attribute another address.

## Main statements

* `AttributeRule.Rule.run_of_rests`, `AttributeRule.Rule.rests_run`: a rule that rests keeps
  attributes, and it rests where it has been applied.
* `Pass.rests_later`: a rule that rests does so after the rule of any pass that comes later.
-/

namespace HtmlMinify

namespace AttributeRule

/-! ## Rules that drop one attribute -/

/-- The name of an anchor. -/
def anchorName : Drop where
  cond c := c.isTag "a" && (c.attributes.value? "id").isSome &&
    c.attributes.value? "name" == c.attributes.value? "id"
  name := "name"

/-- The character set of a script. -/
def scriptCharset : Drop where
  cond c := c.isTag "script"
  name := "charset"

/-- An attribute with a usual value, on the elements that are meant. -/
def usualValue (isMeant : Content → Bool) (name expected : String) : Drop where
  cond c := isMeant c && valueIs c.attributes name expected
  name := name

/-- The type of a style sheet link. -/
def stylesheetLinkType : Drop :=
  usualValue isStylesheetLink "type" "text/css"

/-- The type of a style sheet. -/
def styleAndLinkType : Drop :=
  usualValue (fun c => c.isTag "style" || isStylesheetLink c) "type" "text/css"

/-- The media of a style sheet. -/
def defaultMedia : Drop :=
  usualValue (fun c => c.isTag "style" || c.isTag "link") "media" "all"

/-- The type of a button. -/
def buttonType : Drop :=
  usualValue (·.isTag "button") "type" "submit"

/-- The empty value of an input. -/
def emptyInputValue : Drop where
  cond c := c.isTag "input" && c.attributes.value? "value" == some "" &&
    !emptyValueShows.any (valueIs c.attributes "type")
  name := "value"

/-- An attribute that goes if it has its usual value. -/
theorem rule_usualValue (isMeant : Content → Bool) (name expected : String) (c : Content) :
    (usualValue isMeant name expected).rule c =
      if isMeant c then dropIf c.attributes name expected else keep c.attributes := by
  change (if (isMeant c && valueIs c.attributes name expected) = true then drop c.attributes name
    else keep c.attributes) = _
  rw [dropIf]
  cases isMeant c <;> rfl

/-- The rule on the type of links to style sheets drops a usual value. -/
theorem removeStylesheetLinkType_eq (c : Content) :
    removeStylesheetLinkType c = stylesheetLinkType.rule c :=
  (rule_usualValue isStylesheetLink "type" "text/css" c).symm

/-- So does the rule on the type of styles and links. -/
theorem removeStyleAndLinkType_eq (c : Content) :
    removeStyleAndLinkType c = styleAndLinkType.rule c :=
  (rule_usualValue (fun c => c.isTag "style" || isStylesheetLink c) "type" "text/css" c).symm

/-- So does the rule on media. -/
theorem removeDefaultMedia_eq (c : Content) : removeDefaultMedia c = defaultMedia.rule c :=
  (rule_usualValue (fun c => c.isTag "style" || c.isTag "link") "media" "all" c).symm

/-- So does the rule on the type of buttons. -/
theorem removeButtonType_eq (c : Content) : removeButtonType c = buttonType.rule c :=
  (rule_usualValue (·.isTag "button") "type" "submit" c).symm

/-- Whether an attribute has its usual value fades, if it is clear which elements are meant. -/
theorem fades_usualValue {isMeant : Content → Bool} (h : Fades isMeant) {name : String}
    (hplain : Plain name) (expected : String) :
    Fades (usualValue isMeant name expected).cond :=
  h.and (.valueIs hplain expected)

/-- The empty value of an input does not come about if the type of the input stays. -/
theorem rests_emptyInputValue {c c' : Content} (h : emptyInputValue.Rests c) (halike : c.Alike c')
    (hdistinct : c.attributes.Distinct) (hrevises : Revises c.attributes c'.attributes)
    (htype : c.isTag "input" = true →
      c'.attributes.get? "type" = c.attributes.get? "type") : emptyInputValue.Rests c' := by
  intro hcond
  rw [Bool.eq_false_iff]
  intro hcontains
  have hcond' : (c'.isTag "input" && c'.attributes.value? "value" == some "" &&
      !emptyValueShows.any (valueIs c'.attributes "type")) = true := hcond
  rw [Bool.and_eq_true, Bool.and_eq_true, halike.isTag_eq, beq_iff_eq] at hcond'
  obtain ⟨⟨hinput, hvalue⟩, hshows⟩ := hcond'
  have hsame : valueIs c'.attributes "type" = valueIs c.attributes "type" := by
    funext expected
    rw [valueIs, htype hinput, valueIs]
  have hnot : c.attributes.contains emptyInputValue.name = false := by
    refine h (?_ : (c.isTag "input" && c.attributes.value? "value" == some "" &&
      !emptyValueShows.any (valueIs c.attributes "type")) = true)
    rw [hinput, hrevises.value? hdistinct (by decide) hvalue, ← hsame, hshows]
    rfl
  rw [hrevises.contains hcontains] at hnot
  cases hnot

/-! ## Rules that drop several attributes -/

/-- Type and language of a script in JavaScript. -/
def scriptTypes : List Drop :=
  [⟨fun c => c.isTag "script" && javaScriptTypes.any (valueIs c.attributes "type"), "type"⟩,
    usualValue (·.isTag "script") "language" "javascript"]

/-- Attributes with their default value. -/
def defaultValues (ctx : Context) : List Drop :=
  defaults.map fun (tag, name, value) =>
    usualValue (fun c => c.isTag tag && ctx.defaultAttributeFilter.all (List.contains · name))
      name value

/-- The conditions for dropping the types of scripts fade. -/
theorem fades_scriptTypes : ∀ d ∈ scriptTypes, Fades d.cond := by
  intro d hd
  rw [scriptTypes, List.mem_cons, List.mem_singleton] at hd
  rcases hd with rfl | rfl
  · exact (Fades.isTag "script").and (.valueIsAny (by decide) _)
  · exact fades_usualValue (.isTag "script") (by decide) _

/-- The conditions for dropping default values fade. -/
theorem fades_defaultValues (ctx : Context) : ∀ d ∈ defaultValues ctx, Fades d.cond := by
  intro d hd
  obtain ⟨⟨tag, name, value⟩, hmem, rfl⟩ := List.mem_map.mp hd
  have hplain : ∀ entry ∈ defaults, Plain entry.2.1 := by decide
  exact fades_usualValue ((Fades.isTag tag).and (.const _)) (hplain _ hmem) value

theorem keep_andThen (as : Attributes) (next : Attributes → Result) :
    andThen (keep as) next = next as := by
  rw [andThen, keep]
  simp only [Nat.zero_add]

/-- The rule on the types of scripts drops two attributes, one after the other. -/
theorem removeScriptType_eq (c : Content) :
    removeScriptType c = dropEach c (keep c.attributes) scriptTypes := by
  rw [dropEach, scriptTypes, List.foldl_cons, keep_andThen, List.foldl_cons, List.foldl_nil,
    removeScriptType]
  have htag : ∀ as, ({ c with attributes := as } : Content).isTag "script" = c.isTag "script" :=
    fun _ => rfl
  simp only [rule_usualValue]
  simp only [Drop.rule, htag]
  cases c.isTag "script" <;> rfl

/-- The rule on default values drops several attributes, one after the other. -/
theorem removeDefaults_eq (ctx : Context) (c : Content) :
    removeDefaults ctx c = dropEach c (keep c.attributes) (defaultValues ctx) := by
  rw [removeDefaults, dropEach, defaultValues, List.foldl_map]
  congr 1
  funext result entry
  obtain ⟨tag, name, value⟩ := entry
  have htag : ∀ as, ({ c with attributes := as } : Content).isTag tag = c.isTag tag :=
    fun _ => rfl
  simp only [rule_usualValue, htag]
  split <;> rfl

/-! ## Rules of every kind -/

/-- The rules that passes apply. -/
inductive Rule where
  | readdress (change? : String → Option String) (shortens : Links.Shortens change?)
  | dropOne (d : Drop)
  | dropAll (drops : List Drop) (fades : ∀ d ∈ drops, Fades d.cond)
  | dropEmpty
  | orderClasses
  | orderNames

namespace Rule

variable {rule : Rule} {c c' : Content}

/-- What a rule does to an element. -/
def run : Rule → Content → Result
  | readdress change? _, c => Links.replaceAddresses change? c.attributes
  | dropOne d, c => d.rule c
  | dropAll drops _, c => dropEach c (keep c.attributes) drops
  | dropEmpty, c => removeEmpty c
  | orderClasses, c => sortClassNames c
  | orderNames, c => sortByName c

/-- The element by a rule. -/
def applied (rule : Rule) (c : Content) : Content :=
  { c with attributes := (rule.run c).1 }

/-- A rule changes neither the kind nor the name of an element. -/
theorem alike_applied (rule : Rule) (c : Content) : c.Alike (rule.applied c) :=
  ⟨rfl, rfl⟩

/-- The rule keeps the attributes of the element. -/
def Rests : Rule → Content → Prop
  | readdress change? _, c => ∀ a ∈ c.attributes.toList, Links.newAddress? change? a = none
  | dropOne d, c => d.Rests c
  | dropAll drops _, c => ∀ d ∈ drops, d.Rests c
  | dropEmpty, c => ∀ a ∈ c.attributes.toList, saysNothing a = false
  | orderClasses, c => ∀ a ∈ c.attributes.toList, inOrder a = a
  | orderNames, c => Ordered c.attributes

/-- **A rule that rests keeps attributes.** -/
theorem run_of_rests (hdistinct : c.attributes.Distinct) (h : rule.Rests c) :
    rule.run c = keep c.attributes := by
  cases rule with
  | readdress change? shortens => exact Links.replaceAddresses_of_rests h
  | dropOne d => exact Drop.rule_of_rests h
  | dropAll drops fades => exact dropEach_of_rests h
  | dropEmpty => exact removeEmpty_of_rests h
  | orderClasses => exact sortClassNames_of_rests hdistinct h
  | orderNames => exact sortByName_of_ordered h

/-- **A rule rests where it has been applied.** -/
theorem rests_run (rule : Rule) (hdistinct : c.attributes.Distinct) :
    rule.Rests (rule.applied c) := by
  cases rule with
  | readdress change? shortens => exact shortens.rests_replaceAddresses c.attributes
  | dropOne d => exact Drop.rests_rule hdistinct
  | dropAll drops fades => exact @rests_dropEach c drops (keep c.attributes) hdistinct fades
  | dropEmpty => exact rests_removeEmpty c
  | orderClasses => exact rests_sortClassNames hdistinct
  | orderNames => exact ordered_sortByName c.attributes

/-- **Rules revise attributes.** -/
theorem revises_run (rule : Rule) (hdistinct : c.attributes.Distinct) :
    Revises c.attributes (rule.applied c).attributes := by
  cases rule with
  | readdress change? shortens => exact .of_map hdistinct shortens.revised
  | dropOne d => exact .of_sublist hdistinct (d.sublist_rule c)
  | dropAll drops fades => exact .of_sublist hdistinct (sublist_dropEach c _ drops)
  | dropEmpty => exact .of_sublist hdistinct List.filter_sublist
  | orderClasses =>
    have hfst : ((Rule.orderClasses).applied c).attributes =
        ⟨c.attributes.toList.map inOrder⟩ := sortClassNames_fst hdistinct
    rw [hfst]
    exact .of_map hdistinct revised_inOrder
  | orderNames => exact .of_perm hdistinct (perm_sortByName c)

/-- Every rule leaves attributes in order that are so. -/
theorem ordered_applied (rule : Rule) (hdistinct : c.attributes.Distinct)
    (h : Ordered c.attributes) : Ordered (rule.applied c).attributes := by
  cases rule with
  | readdress change? shortens => exact h.map fun a => (shortens.revised a).name_eq
  | dropOne d => exact h.of_sublist (d.sublist_rule c)
  | dropAll drops fades => exact h.of_sublist (sublist_dropEach c _ drops)
  | dropEmpty => exact h.of_sublist List.filter_sublist
  | orderClasses =>
    have hfst : ((Rule.orderClasses).applied c).attributes =
        ⟨c.attributes.toList.map inOrder⟩ := sortClassNames_fst hdistinct
    rw [hfst]
    exact h.map fun a => (revised_inOrder a).name_eq
  | orderNames => exact ordered_sortByName c.attributes

/-- The rule rests after any revision, if it does before it. -/
def Lasts : Rule → Prop
  | readdress change? _ => ∀ rest, change? (String.ofList ('/' :: rest)) = none
  | dropOne d => Fades d.cond
  | dropAll _ _ => True
  | dropEmpty => True
  | orderClasses => True
  | orderNames => False

/-- **A rule that lasts rests on whatever later rules leave.** -/
theorem Rests.revises (h : rule.Rests c) (hlasts : rule.Lasts) (halike : c.Alike c')
    (hdistinct : c.attributes.Distinct) (hrevises : Revises c.attributes c'.attributes) :
    rule.Rests c' := by
  cases rule with
  | readdress change? shortens =>
    intro a' ha'
    obtain ⟨a, ha, hrevised⟩ := hrevises.comes a' ha'
    exact Links.newAddress?_of_revised hlasts hrevised (h a ha)
  | dropOne d => exact Drop.Rests.revises h hlasts halike hdistinct hrevises
  | dropAll drops fades =>
    exact fun d hd => (h d hd).revises (fades d hd) halike hdistinct hrevises
  | dropEmpty =>
    intro a' ha'
    obtain ⟨a, ha, hrevised⟩ := hrevises.comes a' ha'
    rw [Bool.eq_false_iff]
    intro hnothing
    exact Bool.eq_false_iff.mp (h a ha) (hrevised.saysNothing hnothing)
  | orderClasses =>
    intro a' ha'
    obtain ⟨a, ha, hrevised⟩ := hrevises.comes a' ha'
    exact hrevised.inOrder (h a ha)
  | orderNames => exact hlasts.elim

end Rule

end AttributeRule

namespace Pass

open AttributeRule

/-! ## Passes in their order -/

/-- The first of two passes runs before the second. -/
def Before (p q : Pass) : Prop :=
  all.idxOf p < all.idxOf q

instance (p q : Pass) : Decidable (p.Before q) :=
  inferInstanceAs (Decidable (_ < _))

/-- The passes are listed in the order in which they are run. -/
theorem pairwise_before : all.Pairwise Before := by
  decide

/-- The rule that a pass applies to all elements. -/
def rule? (read? : String → Option Url) (ctx : Context) : Pass → Option Rule
  | stripHttp => some (.readdress (Links.withoutScheme? read? ctx "http:")
      (Links.shortens_withoutScheme? _ ctx (by rfl) (by decide)))
  | stripHttps => some (.readdress (Links.withoutScheme? read? ctx "https:")
      (Links.shortens_withoutScheme? _ ctx (by rfl) (by decide)))
  | relativeLinks =>
    if ctx.localDomains.isEmpty then none
    else some (.readdress (Links.relative? read? ctx) (Links.shortens_relative? _ ctx))
  | removeDefaultAttributes => some (.dropAll (defaultValues ctx) (fades_defaultValues ctx))
  | removeAnchorName => some (.dropOne anchorName)
  | removeScriptCharset => some (.dropOne scriptCharset)
  | removeScriptType => some (.dropAll scriptTypes fades_scriptTypes)
  | removeStylesheetLinkType => some (.dropOne stylesheetLinkType)
  | removeEmptyAttributes => some .dropEmpty
  | removeEmptyInputValue => some (.dropOne emptyInputValue)
  | sortClassNames => some .orderClasses
  | sortAttributes => some .orderNames
  | removeStyleAndLinkType => some (.dropOne styleAndLinkType)
  | removeDefaultMedia => some (.dropOne defaultMedia)
  | removeButtonType => some (.dropOne buttonType)
  | documentPasses | attributePasses | keepExternalScheme | omitQuotes | omitEndTags
  | removeComments | collapseWhitespace | trimAroundTags | removeBlankTexts => none

variable {read? : String → Option Url} {ctx : Context} {pass : Pass} {rule : Rule}

/-- A pass with a rule applies it to all elements. -/
theorem apply_eq_onElements (h : pass.rule? read? ctx = some rule) :
    pass.apply read? ctx = onElements rule.run := by
  cases pass with
  | relativeLinks =>
    rw [rule?] at h
    split at h
    · cases h
    · next hdomains =>
      cases h
      exact if_neg hdomains
  | removeDefaultAttributes =>
    cases h
    exact congrArg onElements (funext (removeDefaults_eq ctx))
  | removeScriptType =>
    cases h
    exact congrArg onElements (funext removeScriptType_eq)
  | removeStylesheetLinkType =>
    cases h
    exact congrArg onElements (funext removeStylesheetLinkType_eq)
  | removeStyleAndLinkType =>
    cases h
    exact congrArg onElements (funext removeStyleAndLinkType_eq)
  | removeDefaultMedia =>
    cases h
    exact congrArg onElements (funext removeDefaultMedia_eq)
  | removeButtonType =>
    cases h
    exact congrArg onElements (funext removeButtonType_eq)
  | _ => cases h <;> rfl

/-- Most rules rest after any revision. -/
theorem lasts_rule (h : pass.rule? read? ctx = some rule)
    (hinput : pass ≠ removeEmptyInputValue) (hsort : pass ≠ sortAttributes)
    (hrelative : pass ≠ relativeLinks) : rule.Lasts := by
  cases pass with
  | stripHttp | stripHttps =>
    cases h
    exact Links.withoutScheme?_slash _ ctx (by rfl) (by decide)
  | removeAnchorName =>
    cases h
    exact .nameIsId
  | removeScriptCharset =>
    cases h
    exact .isTag "script"
  | removeStylesheetLinkType =>
    cases h
    exact fades_usualValue .isStylesheetLink (by decide) _
  | removeStyleAndLinkType =>
    cases h
    exact fades_usualValue ((Fades.isTag "style").or .isStylesheetLink) (by decide) _
  | removeDefaultMedia =>
    cases h
    exact fades_usualValue ((Fades.isTag "style").or (.isTag "link")) (by decide) _
  | removeButtonType =>
    cases h
    exact fades_usualValue (.isTag "button") (by decide) _
  | removeEmptyInputValue => exact absurd rfl hinput
  | sortAttributes => exact absurd rfl hsort
  | relativeLinks => exact absurd rfl hrelative
  | _ => cases h <;> trivial

/-! ### The passes whose order counts -/

/-- An element has only one tag, letter case aside. -/
theorem isTag_of_isTag {c : Content} {tag : String} (h : c.isTag tag = true) (other : String) :
    c.isTag other = Text.sameIgnoringCase tag other := by
  rw [Content.isTag, Bool.and_eq_true, Text.sameIgnoringCase, beq_iff_eq] at h
  rw [Content.isTag, h.1, Bool.true_and, Text.sameIgnoringCase, h.2, Text.sameIgnoringCase]

/-- An attribute that is never revised stays where attributes are mapped. -/
theorem mem_map_of_plain {items : List Attribute} {change : Attribute → Attribute}
    (h : ∀ a, Revised a (change a)) {name : String} (hplain : Plain name) {a : Attribute}
    (ha : a ∈ items) (his : a.is name = true) : a ∈ items.map change := by
  have hsame : change a = a :=
    (h a).eq_of_plain hplain ((Attribute.is_congr (h a).name_eq name).trans his)
  exact List.mem_map.mpr ⟨a, ha, hsame⟩

/-- A rule whose condition does not hold leaves an element. -/
theorem applied_dropOne_of_not {d : Drop} {c : Content} (h : d.cond c = false) :
    (Rule.dropOne d).applied c = c := by
  have hrule : d.rule c = keep c.attributes := by
    rw [Drop.rule, h, if_neg Bool.false_ne_true]
  rw [Rule.applied, Rule.run, hrule]
  rfl

/-- **No pass drops the type of an input once empty values went.** -/
theorem get?_type_applied (hbefore : removeEmptyInputValue.Before pass)
    (hrule : pass.rule? read? ctx = some rule) {c : Content} (hdistinct : c.attributes.Distinct)
    (hinput : c.isTag "input" = true) :
    (rule.applied c).attributes.get? "type" = c.attributes.get? "type" := by
  have hother := isTag_of_isTag hinput
  have hlink : isStylesheetLink c = false := by
    rw [isStylesheetLink, hother "link"]
    rfl
  have hstays : (∀ a ∈ c.attributes.toList, a.is "type" = true →
      a ∈ (rule.applied c).attributes.toList) →
      (rule.applied c).attributes.get? "type" = c.attributes.get? "type" :=
    (rule.revises_run hdistinct).get?_eq hdistinct (by decide)
  cases pass with
  | sortClassNames =>
    cases hrule
    refine hstays fun a ha his => ?_
    have hfst : ((Rule.orderClasses).applied c).attributes =
        ⟨c.attributes.toList.map inOrder⟩ := sortClassNames_fst hdistinct
    rw [hfst]
    exact mem_map_of_plain revised_inOrder (by decide) ha his
  | sortAttributes =>
    cases hrule
    exact hstays fun a ha _ => (perm_sortByName c).mem_iff.mpr ha
  | relativeLinks =>
    rw [rule?] at hrule
    split at hrule
    · cases hrule
    · cases hrule
      exact hstays fun a ha his =>
        mem_map_of_plain (Links.shortens_relative? _ ctx).revised (by decide) ha his
  | removeStyleAndLinkType =>
    cases hrule
    rw [applied_dropOne_of_not]
    change ((c.isTag "style" || isStylesheetLink c) && _) = false
    rw [hother "style", hlink]
    rfl
  | removeDefaultMedia =>
    cases hrule
    rw [applied_dropOne_of_not]
    change ((c.isTag "style" || c.isTag "link") && _) = false
    rw [hother "style", hother "link"]
    rfl
  | removeButtonType =>
    cases hrule
    rw [applied_dropOne_of_not]
    change (c.isTag "button" && _) = false
    rw [hother "button"]
    rfl
  | _ => first | exact absurd hbefore (by decide) | cases hrule

/-- **No pass gives an address a host once hosts went**: those that come later drop attributes. -/
theorem sublist_applied_of_relativeLinks (hbefore : relativeLinks.Before pass)
    (hrule : pass.rule? read? ctx = some rule) (c : Content) :
    (rule.applied c).attributes.toList.Sublist c.attributes.toList := by
  cases pass with
  | removeStyleAndLinkType | removeDefaultMedia | removeButtonType =>
    cases hrule
    exact Drop.sublist_rule _ c
  | _ => first | exact absurd hbefore (by decide) | cases hrule

/-- **A rule that rests does so after the rule of any pass that comes later.** -/
theorem rests_later {later : Pass} {laterRule : Rule}
    (hbefore : pass.Before later) (hrule : pass.rule? read? ctx = some rule)
    (hlater : later.rule? read? ctx = some laterRule) {c : Content}
    (hdistinct : c.attributes.Distinct) (h : rule.Rests c) :
    rule.Rests (laterRule.applied c) := by
  by_cases hsort : pass = sortAttributes
  · subst hsort
    cases hrule
    exact laterRule.ordered_applied hdistinct h
  by_cases hinput : pass = removeEmptyInputValue
  · subst hinput
    cases hrule
    exact rests_emptyInputValue h (laterRule.alike_applied c) hdistinct
      (laterRule.revises_run hdistinct) (get?_type_applied hbefore hlater hdistinct)
  by_cases hrelative : pass = relativeLinks
  · subst hrelative
    have hsub := sublist_applied_of_relativeLinks hbefore hlater c
    rw [rule?] at hrule
    split at hrule
    · cases hrule
    · cases hrule
      exact fun a ha => h a (hsub.subset ha)
  exact h.revises (lasts_rule hrule hinput hsort hrelative) (laterRule.alike_applied c) hdistinct
    (laterRule.revises_run hdistinct)

end Pass

end HtmlMinify
