import HtmlMinify.Proofs.AttributeMap
import HtmlMinify.Proofs.RuleOrder
import HtmlMinify.Url.Parse

/-!
# Effective values of attributes

An attribute that is absent has a default, so one that only states its default can go: what the
element means, its effective values, stays. Six passes drop attributes for that reason. One of them
works on scripts, the others on elements with an entry in a table of defaults, so that no two of
them work on the same element for different reasons.

For scripts the question is whether they are JavaScript. A type decides that, and the language
counts where there is no type. Dropping the type of a JavaScript thus leaves the decision to a
language that may say otherwise.

## Main statements

* `AttributeRule.Drop.sameValues_rule`: dropping an attribute that states its default keeps all
  effective values.
* `AttributeRule.isJavaScript_removeScriptType`: a script without its type is what its language
  says.
* `Pass.keeps_effective_values`: any number of the passes keeps all effective values, and
  whether a script is JavaScript unless it loses its type while its language says otherwise.
-/

namespace HtmlMinify

open Text

namespace AttributeRule

variable {as : Attributes} {name other expected : String}

/-! ## Effective values -/

/-- The value that an attribute states, case and outer whitespace aside. -/
def stated (a : Attribute) : String :=
  lower (trim a.valueOrEmpty)

/-- The value that counts: the stated one, or the default. -/
def effective (as : Attributes) (name default : String) : String :=
  (as.get? name).elim default stated

/-- Tag, attribute and default value, for all attributes that go where they state their default. -/
def statedDefaults : List (String × String × String) :=
  defaults ++
    [("button", "type", "submit"),
      ("style", "media", "all"),
      ("link", "media", "all"),
      ("style", "type", "text/css"),
      ("link", "type", "text/css")]

/-- The language of a script does not say that it is other than JavaScript. -/
def languageIsJavaScript (as : Attributes) : Bool :=
  effective as "language" "" == "" ||
    javaScriptTypes.contains ("text/" ++ effective as "language" "")

/-- A script with these attributes is JavaScript: its type says so, or its language if there is no
type. -/
def isJavaScript (as : Attributes) : Bool :=
  (as.get? "type").elim (languageIsJavaScript as) fun a => javaScriptTypes.contains (stated a)

section Table

variable {c : Content} {tag tag' name' value value' : String}

/-- All is in lower case, no entry is for scripts, and what a link is has no default. -/
theorem plain_of_mem_statedDefaults (h : (tag, name, value) ∈ statedDefaults) :
    lower tag = tag ∧ tag ≠ "script" ∧ lower name = name ∧ name ≠ "rel" ∧ lower value = value := by
  have hall : ∀ entry ∈ statedDefaults, lower entry.1 = entry.1 ∧ entry.1 ≠ "script" ∧
      lower entry.2.1 = entry.2.1 ∧ entry.2.1 ≠ "rel" ∧ lower entry.2.2 = entry.2.2 := by
    decide +kernel
  exact hall (tag, name, value) h

/-- There is one default for an attribute of an element. -/
theorem default_unique (h : (tag, name, value) ∈ statedDefaults) (htag : c.isTag tag = true)
    (h' : (tag', name', value') ∈ statedDefaults) (htag' : c.isTag tag' = true)
    (hname : lower name' = lower name) : name' = name ∧ value' = value := by
  have hkeys : (statedDefaults.map fun entry => (entry.1, entry.2.1)).Nodup := by decide +kernel
  obtain ⟨hlowerTag, -, hlowerName, -⟩ := plain_of_mem_statedDefaults h
  obtain ⟨hlowerTag', -, hlowerName', -⟩ := plain_of_mem_statedDefaults h'
  rw [hlowerName, hlowerName'] at hname
  rw [Pass.isTag_of_isTag htag, sameIgnoringCase, beq_iff_eq, hlowerTag, hlowerTag'] at htag'
  subst hname htag'
  cases List.inj_on_of_nodup_map hkeys h h' rfl
  exact ⟨rfl, rfl⟩

/-- The elements with stated defaults are no scripts. -/
theorem not_script_of_mem (h : (tag, name, value) ∈ statedDefaults) (htag : c.isTag tag = true) :
    c.isTag "script" = false := by
  obtain ⟨hlower, hne, -⟩ := plain_of_mem_statedDefaults h
  rw [Pass.isTag_of_isTag htag, sameIgnoringCase, beq_eq_false_iff_ne, hlower]
  exact hne

end Table

/-! ## What is left when an attribute goes -/

/-- Dropping an attribute leaves all others to be found. -/
theorem get?_drop (h : as.Distinct) (name other : String) :
    (drop as name).1.get? other = if lower other = lower name then none else as.get? other := by
  rw [drop]
  split
  · exact as.get?_erase h name other
  · next hcontains =>
    split
    · next hother =>
      rw [keep, ← Option.not_isSome_iff_eq_none, ← Attributes.contains_eq_isSome_get?,
        Attributes.contains, hother]
      exact hcontains
    · rfl

/-- An attribute has a value if it states it, letter case and blanks aside. -/
theorem valueIs_iff :
    valueIs as name expected = true ↔ ∃ a, as.get? name = some a ∧ stated a = lower expected := by
  rw [valueIs, Option.any_eq_true]
  simp only [sameIgnoringCase, beq_iff_eq]
  rfl

/-- An attribute that states its default has the same effective value without it. -/
theorem effective_drop (h : as.Distinct) (hvalue : valueIs as name expected = true)
    (hlower : lower expected = expected) :
    effective (drop as name).1 name expected = effective as name expected := by
  obtain ⟨a, hget, hstated⟩ := valueIs_iff.mp hvalue
  rw [effective, get?_drop h, if_pos rfl, effective, hget, Option.elim_none, Option.elim_some,
    hstated, hlower]

/-- Dropping an attribute leaves what the others amount to. -/
theorem effective_drop_of_ne (h : as.Distinct) (hne : lower other ≠ lower name)
    (default : String) : effective (drop as name).1 other default = effective as other default := by
  rw [effective, get?_drop h, if_neg hne, effective]

/-! ## Elements with defaults -/

/-- What is left of an element says the same as before. -/
structure SameValues (c c' : Content) : Prop where
  alike : c.Alike c'
  distinct : c'.attributes.Distinct
  effective_eq : ∀ tag name default, (tag, name, default) ∈ statedDefaults → c.isTag tag = true →
    effective c'.attributes name default = effective c.attributes name default
  isStylesheetLink_eq : isStylesheetLink c' = isStylesheetLink c

namespace SameValues

variable {c c' c'' : Content}

theorem refl (h : c.attributes.Distinct) : SameValues c c :=
  ⟨.refl c, h, fun _ _ _ _ _ => rfl, rfl⟩

theorem trans (h : SameValues c c') (h' : SameValues c' c'') : SameValues c c'' where
  alike := h.alike.trans h'.alike
  distinct := h'.distinct
  effective_eq tag name default hmem htag :=
    (h'.effective_eq tag name default hmem ((h.alike.isTag_eq _).trans htag)).trans
      (h.effective_eq tag name default hmem htag)
  isStylesheetLink_eq := h'.isStylesheetLink_eq.trans h.isStylesheetLink_eq

end SameValues

/-- Attributes go only if they state a default. -/
def Drop.Restates (d : Drop) : Prop :=
  ∀ c, d.cond c = true → ∃ tag expected, (tag, d.name, expected) ∈ statedDefaults ∧
    c.isTag tag = true ∧ valueIs c.attributes d.name expected = true

/-- Dropping a value that is the default of its element leaves what it amounts to. -/
theorem Drop.restates_usualValue {isMeant : Content → Bool}
    (h : ∀ c, isMeant c = true → ∃ tag, (tag, name, expected) ∈ statedDefaults ∧
      c.isTag tag = true) : (usualValue isMeant name expected).Restates := by
  intro c hcond
  obtain ⟨hmeant, hvalue⟩ := Bool.and_eq_true_iff.mp hcond
  obtain ⟨tag, hmem, htag⟩ := h c hmeant
  exact ⟨tag, expected, hmem, htag, hvalue⟩

/-- **Dropping an attribute that states its default keeps all effective values.** -/
theorem Drop.sameValues_rule {d : Drop} {c : Content} (h : d.Restates)
    (hdistinct : c.attributes.Distinct) :
    SameValues c { c with attributes := (d.rule c).1 } := by
  cases hcond : d.cond c with
  | false =>
    rw [rule, hcond, if_neg Bool.false_ne_true]
    exact .refl hdistinct
  | true =>
    have hdistinct' := hdistinct.of_sublist (d.sublist_rule c)
    rw [rule, if_pos hcond] at hdistinct' ⊢
    obtain ⟨tag, expected, hmem, htag, hvalue⟩ := h c hcond
    obtain ⟨-, -, hname, hrel, hexpected⟩ := plain_of_mem_statedDefaults hmem
    refine ⟨⟨rfl, rfl⟩, hdistinct', fun tag' other default hother htag' => ?_, ?_⟩
    · by_cases hsame : lower other = lower d.name
      · -- The table has one default for this attribute, the one that was stated.
        obtain ⟨rfl, rfl⟩ := default_unique hmem htag hother htag' hsame
        exact effective_drop hdistinct hvalue hexpected
      · exact effective_drop_of_ne hdistinct hsame default
    · have hne : lower "rel" ≠ lower d.name := by
        rw [hname]
        exact Ne.symm hrel
      rw [isStylesheetLink, isStylesheetLink, Attributes.value?, get?_drop hdistinct, if_neg hne]
      rfl

/-- Dropping several such values does, too. -/
theorem sameValues_dropEach {drops : List Drop} (h : ∀ d ∈ drops, d.Restates) (c : Content)
    {result : Result} (hdistinct : result.1.Distinct) :
    SameValues { c with attributes := result.1 }
      { c with attributes := (dropEach c result drops).1 } := by
  induction drops generalizing result with
  | nil => exact .refl hdistinct
  | cons d drops ih =>
    have hstep :=
      Drop.sameValues_rule (c := { c with attributes := result.1 }) (h d (by simp)) hdistinct
    exact hstep.trans (@ih (fun d hd => h d (by simp [hd]))
      (andThen result fun as => d.rule { c with attributes := as }) hstep.distinct)

/-! ## Scripts -/

/-- The type of a script is compared with all types of JavaScript. -/
theorem any_valueIs_type (as : Attributes) :
    javaScriptTypes.any (valueIs as "type") =
      (as.get? "type").any fun a => javaScriptTypes.contains (stated a) := by
  have hlower : ∀ type ∈ javaScriptTypes, lower type = type := by decide +kernel
  rw [Bool.eq_iff_iff, List.any_eq_true, Option.any_eq_true]
  simp only [valueIs_iff, List.contains_iff_mem]
  constructor
  · rintro ⟨type, hmem, a, hget, hstated⟩
    rw [hlower type hmem] at hstated
    exact ⟨a, hget, hstated ▸ hmem⟩
  · rintro ⟨a, hget, hmem⟩
    exact ⟨stated a, hmem, a, hget, (hlower _ hmem).symm⟩

/-- A language that says JavaScript says no more than none does. -/
theorem languageIsJavaScript_dropIf (h : as.Distinct) :
    languageIsJavaScript (dropIf as "language" "javascript").1 = languageIsJavaScript as := by
  rw [dropIf]
  split
  · next hvalue =>
    obtain ⟨a, hget, hstated⟩ := valueIs_iff.mp hvalue
    rw [languageIsJavaScript, effective, get?_drop h, if_pos rfl, languageIsJavaScript, effective,
      hget, Option.elim_some, hstated]
    decide +kernel
  · rfl

/-- Whether a script is JavaScript does not change when its language is dropped. -/
theorem isJavaScript_dropIf (h : as.Distinct) :
    isJavaScript (dropIf as "language" "javascript").1 = isJavaScript as := by
  have htype : (dropIf as "language" "javascript").1.get? "type" = as.get? "type" := by
    rw [dropIf]
    split
    · rw [get?_drop h, if_neg (by decide)]
    · rfl
  rw [isJavaScript, htype, languageIsJavaScript_dropIf h, isJavaScript]

/-- **A script without its type is what its language says.** -/
theorem isJavaScript_removeScriptType {c : Content} (hscript : c.isTag "script" = true)
    (h : c.attributes.Distinct) :
    isJavaScript (removeScriptType c).1 =
      (isJavaScript c.attributes && languageIsJavaScript c.attributes) := by
  have hleft : (removeScriptType c).1 =
      (dropIf (if (c.attributes.get? "type").any fun a => javaScriptTypes.contains (stated a)
        then drop c.attributes "type" else keep c.attributes).1 "language" "javascript").1 := by
    rw [removeScriptType, if_pos hscript, any_valueIs_type]
    rfl
  rw [hleft]
  cases hget : c.attributes.get? "type" with
  | none =>
    have hlanguage : isJavaScript c.attributes = languageIsJavaScript c.attributes := by
      rw [isJavaScript, hget, Option.elim_none]
    rw [Option.any_none, if_neg Bool.false_ne_true, hlanguage, Bool.and_self, ← hlanguage]
    exact isJavaScript_dropIf h
  | some a =>
    have htype : isJavaScript c.attributes = javaScriptTypes.contains (stated a) := by
      rw [isJavaScript, hget, Option.elim_some]
    rw [Option.any_some, htype]
    split
    · next hmem =>
      have hdistinct := h.of_sublist (sublist_drop c.attributes "type")
      rw [hmem, Bool.true_and, isJavaScript_dropIf hdistinct, isJavaScript, get?_drop h,
        if_pos rfl, Option.elim_none, languageIsJavaScript,
        effective_drop_of_ne h (by decide), languageIsJavaScript]
    · next hmem =>
      rw [Bool.eq_false_iff.mpr hmem, Bool.false_and, ← Bool.eq_false_iff.mpr hmem, ← htype]
      exact isJavaScript_dropIf h

end AttributeRule

namespace Pass

open AttributeRule

variable {ctx : Context} {pass : Pass} {c : Content}

/-! ## Passes in any order -/

/-- The passes that drop attributes which state what holds without them. -/
def defaultRemovers : List Pass :=
  [removeDefaultAttributes, removeScriptType, removeStylesheetLinkType, removeStyleAndLinkType,
    removeDefaultMedia, removeButtonType]

/-- What such a pass does to an element. -/
def removal (ctx : Context) : Pass → Content → Result
  | removeDefaultAttributes => removeDefaults ctx
  | removeScriptType => AttributeRule.removeScriptType
  | removeStylesheetLinkType => AttributeRule.removeStylesheetLinkType
  | removeStyleAndLinkType => AttributeRule.removeStyleAndLinkType
  | removeDefaultMedia => AttributeRule.removeDefaultMedia
  | removeButtonType => AttributeRule.removeButtonType
  | _ => fun c => keep c.attributes

/-- The element after such a pass. -/
def reduced (ctx : Context) (c : Content) (pass : Pass) : Content :=
  { c with attributes := (pass.removal ctx c).1 }

/-- Passes that drop defaults apply their rule to each element. -/
theorem apply_eq_removal (h : pass ∈ defaultRemovers) (read? : String → Option Url) (ctx : Context) :
    pass.apply read? ctx = onElements (pass.removal ctx) := by
  cases pass with
  | removeDefaultAttributes | removeScriptType | removeStylesheetLinkType | removeStyleAndLinkType
  | removeDefaultMedia | removeButtonType => rfl
  | _ => exact absurd h (by decide)

/-- What the passes drop, other than from scripts. -/
def drops (ctx : Context) : Pass → List Drop
  | removeDefaultAttributes => defaultValues ctx
  | removeStylesheetLinkType => [stylesheetLinkType]
  | removeStyleAndLinkType => [styleAndLinkType]
  | removeDefaultMedia => [defaultMedia]
  | removeButtonType => [buttonType]
  | _ => []

/-- A link to a style sheet is a link. -/
theorem isTag_link_of_isStylesheetLink (h : isStylesheetLink c = true) : c.isTag "link" = true :=
  (Bool.and_eq_true_iff.mp h).1

/-- All rules of these passes drop values that are defaults. -/
theorem restates_drops (ctx : Context) (pass : Pass) : ∀ d ∈ pass.drops ctx, d.Restates := by
  cases pass with
  | removeDefaultAttributes =>
    intro d hd
    obtain ⟨⟨tag, name, value⟩, hmem, rfl⟩ := List.mem_map.mp hd
    refine Drop.restates_usualValue fun c hmeant => ⟨tag, ?_, (Bool.and_eq_true_iff.mp hmeant).1⟩
    exact List.mem_append_left _ hmem
  | removeStylesheetLinkType =>
    refine List.forall_mem_singleton.mpr (Drop.restates_usualValue fun c hmeant => ?_)
    exact ⟨"link", by decide, isTag_link_of_isStylesheetLink hmeant⟩
  | removeStyleAndLinkType =>
    refine List.forall_mem_singleton.mpr (Drop.restates_usualValue fun c hmeant => ?_)
    rcases Bool.or_eq_true_iff.mp hmeant with hstyle | hlink
    · exact ⟨"style", by decide, hstyle⟩
    · exact ⟨"link", by decide, isTag_link_of_isStylesheetLink hlink⟩
  | removeDefaultMedia =>
    refine List.forall_mem_singleton.mpr (Drop.restates_usualValue fun c hmeant => ?_)
    rcases Bool.or_eq_true_iff.mp hmeant with hstyle | hlink
    · exact ⟨"style", by decide, hstyle⟩
    · exact ⟨"link", by decide, hlink⟩
  | removeButtonType =>
    exact List.forall_mem_singleton.mpr
      (Drop.restates_usualValue fun c hmeant => ⟨"button", by decide, hmeant⟩)
  | _ => exact List.forall_mem_nil _

/-- All of these passes but one are rules that drop attributes one after the other. -/
theorem removal_eq_dropEach (hpass : pass ≠ removeScriptType) (ctx : Context) (c : Content) :
    pass.removal ctx c = dropEach c (keep c.attributes) (pass.drops ctx) := by
  have hone (d : Drop) : d.rule c = dropEach c (keep c.attributes) [d] := by
    rw [dropEach, List.foldl_cons, keep_andThen, List.foldl_nil]
  cases pass with
  | removeDefaultAttributes => exact removeDefaults_eq ctx c
  | removeScriptType => exact absurd rfl hpass
  | removeStylesheetLinkType => exact (removeStylesheetLinkType_eq c).trans (hone _)
  | removeStyleAndLinkType => exact (removeStyleAndLinkType_eq c).trans (hone _)
  | removeDefaultMedia => exact (removeDefaultMedia_eq c).trans (hone _)
  | removeButtonType => exact (removeButtonType_eq c).trans (hone _)
  | _ => rfl

/-- **Only the pass for scripts changes a script.** -/
theorem reduced_of_script (hscript : c.isTag "script" = true) (hpass : pass ≠ removeScriptType) :
    reduced ctx c pass = c := by
  have hrests : ∀ d ∈ pass.drops ctx, d.Rests c := by
    intro d hd hcond
    obtain ⟨tag, expected, hmem, htag, -⟩ := restates_drops ctx pass d hd c hcond
    rw [not_script_of_mem hmem htag] at hscript
    cases hscript
  rw [reduced, removal_eq_dropEach hpass, dropEach_of_rests hrests]
  rfl

/-- One of these passes leaves what the attributes of an element amount to. -/
theorem sameValues_reduced (hscript : c.isTag "script" = false) (h : c.attributes.Distinct)
    (ctx : Context) (pass : Pass) : SameValues c (reduced ctx c pass) := by
  by_cases hpass : pass = removeScriptType
  · have hkeep : reduced ctx c pass = c := by
      rw [hpass, reduced, removal, AttributeRule.removeScriptType, hscript,
        if_neg Bool.false_ne_true]
      rfl
    rw [hkeep]
    exact .refl h
  · rw [reduced, removal_eq_dropEach hpass]
    exact @sameValues_dropEach _ (restates_drops ctx pass) c (keep c.attributes) h

/-- **So do any number of them**, one after the other. -/
theorem sameValues_foldl_reduced (ctx : Context) (passes : List Pass)
    (hscript : c.isTag "script" = false) (h : c.attributes.Distinct) :
    SameValues c (passes.foldl (reduced ctx) c) := by
  induction passes generalizing c with
  | nil => exact .refl h
  | cons pass passes ih =>
    have hstep := sameValues_reduced hscript h ctx pass
    exact hstep.trans (ih ((hstep.alike.isTag_eq _).trans hscript) hstep.distinct)

/-- The pass on the types of scripts drops type and language. -/
theorem reduced_removeScriptType (ctx : Context) (c : Content) :
    reduced ctx c removeScriptType = (Rule.dropAll scriptTypes fades_scriptTypes).applied c := by
  rw [reduced, removal, removeScriptType_eq, Rule.applied, Rule.run]

/-- A script loses its type and language at most once. -/
theorem foldl_reduced_of_script (ctx : Context) (passes : List Pass)
    (hscript : c.isTag "script" = true) (h : c.attributes.Distinct) :
    passes.foldl (reduced ctx) c =
      if removeScriptType ∈ passes then reduced ctx c removeScriptType else c := by
  induction passes generalizing c with
  | nil => rfl
  | cons pass passes ih =>
    rw [List.foldl_cons]
    by_cases hpass : pass = removeScriptType
    · subst hpass
      let rule := Rule.dropAll scriptTypes fades_scriptTypes
      have hdistinct := (rule.revises_run h).distinct
      have hagain : rule.applied (rule.applied c) = rule.applied c := by
        rw [Rule.applied, Rule.run_of_rests hdistinct (rule.rests_run h)]
        rfl
      rw [if_pos List.mem_cons_self, reduced_removeScriptType,
        ih (c := rule.applied c) hscript hdistinct, reduced_removeScriptType, hagain, ite_self]
    · rw [reduced_of_script hscript hpass, ih hscript h]
      simp only [List.mem_cons, Ne.symm hpass, false_or]

/-- **Attributes go only if they say what holds without them**, for any of the six passes, in any
order and number: all values that count stay, and a link refers to a style sheet as before. A script
stays JavaScript, or other than that, with one exception. If it has a type that says JavaScript, and
a language that does not, then it is JavaScript for its type only, and dropping that type changes
what it is. -/
theorem keeps_effective_values (read? : String → Option Url) (ctx : Context) (passes : List Pass)
    (hpasses : ∀ pass ∈ passes, pass ∈ defaultRemovers) (c : Content)
    (hdistinct : c.attributes.Distinct) :
    let left := passes.foldl (reduced ctx) c
    (∀ pass ∈ passes, pass.apply read? ctx = onElements (pass.removal ctx)) ∧
    (∀ tag name default, (tag, name, default) ∈ statedDefaults → c.isTag tag = true →
      effective left.attributes name default = effective c.attributes name default) ∧
    isStylesheetLink left = isStylesheetLink c ∧
    (c.isTag "script" = true →
      (isJavaScript left.attributes = isJavaScript c.attributes ↔
        ¬ (removeScriptType ∈ passes ∧ isJavaScript c.attributes = true ∧
          languageIsJavaScript c.attributes = false))) := by
  refine ⟨fun pass hpass => apply_eq_removal (hpasses pass hpass) read? ctx, ?_⟩
  cases hscript : c.isTag "script" with
  | false =>
    have hsame := sameValues_foldl_reduced ctx passes hscript hdistinct
    exact ⟨hsame.effective_eq, hsame.isStylesheetLink_eq, fun h => Bool.noConfusion h⟩
  | true =>
    rw [foldl_reduced_of_script ctx passes hscript hdistinct]
    have hlink (as : Attributes) : isStylesheetLink { c with attributes := as } = false := by
      rw [isStylesheetLink, isTag_of_isTag (c := { c with attributes := as }) hscript "link"]
      rfl
    refine ⟨fun tag name default hmem htag => ?_, ?_, fun _ => ?_⟩
    · rw [not_script_of_mem hmem htag] at hscript
      cases hscript
    · split
      · exact (hlink _).trans (hlink _).symm
      · rfl
    · split
      · next hmem =>
        have hleft : isJavaScript (reduced ctx c removeScriptType).attributes = _ :=
          isJavaScript_removeScriptType hscript hdistinct
        rw [hleft]
        cases isJavaScript c.attributes <;> cases languageIsJavaScript c.attributes <;>
          simp [hmem]
      · next hmem => simp [hmem]

/-- A link with a type and media that it has without them. -/
def styleLink : Content :=
  { kind := .element, name := "link",
    attributes :=
      ⟨[⟨"rel", some "stylesheet"⟩, ⟨"TYPE", some "Text/CSS"⟩, ⟨"media", some " all "⟩]⟩ }

/-- A script with a type and a language. -/
def scriptIn (language : String) : Content :=
  { kind := .element, name := "script",
    attributes := ⟨[⟨"type", some "text/javascript"⟩, ⟨"language", some language⟩]⟩ }

/-- Passes in another order than their own, one of them twice. -/
def someRemovers : List Pass :=
  [removeDefaultMedia, removeScriptType, removeStyleAndLinkType, removeScriptType]

/-- The link loses type and media, and the script type and language. -/
theorem keeps_effective_values_samples :
    (someRemovers.foldl (reduced {}) styleLink).attributes = ⟨[⟨"rel", some "stylesheet"⟩]⟩ ∧
      effective (someRemovers.foldl (reduced {}) styleLink).attributes "media" "all" =
        effective styleLink.attributes "media" "all" ∧
      (someRemovers.foldl (reduced {}) (scriptIn "JavaScript")).attributes = ⟨[]⟩ ∧
      isJavaScript (someRemovers.foldl (reduced {}) (scriptIn "JavaScript")).attributes =
        isJavaScript (scriptIn "JavaScript").attributes := by
  refine ⟨by decide +kernel, ?_, by decide +kernel, ?_⟩
  · exact (keeps_effective_values Url.parse? {} someRemovers (by decide) styleLink
      (by decide +kernel)).2.1 "link" "media" "all" (by decide) (by decide)
  · refine ((keeps_effective_values Url.parse? {} someRemovers (by decide)
      (scriptIn "JavaScript") (by decide +kernel)).2.2.2 (by decide)).mpr ?_
    decide +kernel

/-- The type makes this script JavaScript, and the language that is left makes it another one. -/
theorem isJavaScript_reduced_vbscript :
    isJavaScript (scriptIn "vbscript").attributes = true ∧
      isJavaScript (reduced {} (scriptIn "vbscript") removeScriptType).attributes = false := by
  decide +kernel

end Pass

end HtmlMinify
