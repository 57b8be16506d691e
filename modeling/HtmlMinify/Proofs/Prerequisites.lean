import HtmlMinify.Minify
import HtmlMinify.Proofs.RuleOrder
import HtmlMinify.Url.Parse

/-!
# Passes that wait for others

A pass may require another one, which may require a third: `Pass.prerequisites` lists them all. The
passes that run are found in one sweep in their order, which looks at the pass that is required next
and at what ran before. Since a pass comes after the one it requires, this asks for the whole chain.

A pass that is asked for and does not run leaves no trace in a run: no pass that runs waits for it,
and if it has a list of names, no other pass reads it.

## Main statements

* `Settings.active_eq_filter`: the passes that run are those that are asked for with all their
  prerequisites.
* `Run.passes_congr`: a run depends on what is known to its passes, and to no others.
* `Settings.gated_by_prerequisites`: turning off a pass that does not run changes no page.
-/

namespace HtmlMinify

namespace Pass

theorem mem_all (pass : Pass) : pass ∈ all := by
  cases pass <;> decide

/-- A pass comes after the one it requires. -/
theorem before_of_requires? {pass required : Pass} (h : pass.requires? = some required) :
    required.Before pass := by
  have hall : ∀ pass ∈ all, ∀ required ∈ pass.requires?, required.Before pass := by decide
  exact hall pass (mem_all pass) required h

/-- The pass that is required, the one that this requires in turn, and so on. -/
def prerequisites (pass : Pass) : List Pass :=
  match _h : pass.requires? with
  | none => []
  | some required => required :: prerequisites required
termination_by all.idxOf pass
decreasing_by exact before_of_requires? _h

theorem prerequisites_of_none {pass : Pass} (h : pass.requires? = none) :
    pass.prerequisites = [] := by
  rw [prerequisites]
  split
  · rfl
  · next required hrequires =>
    rw [h] at hrequires
    cases hrequires

/-- What a pass requires is its prerequisite, and so is what that requires. -/
theorem prerequisites_of_some {pass required : Pass} (h : pass.requires? = some required) :
    pass.prerequisites = required :: required.prerequisites := by
  rw [prerequisites]
  split
  · next hrequires =>
    rw [h] at hrequires
    cases hrequires
  · next other hrequires =>
    rw [h] at hrequires
    cases hrequires
    rfl

/-- What a prerequisite needs is a prerequisite. -/
theorem prerequisites_subset {pass required : Pass} (h : required ∈ pass.prerequisites) :
    required.prerequisites ⊆ pass.prerequisites := by
  fun_induction prerequisites pass with
  | case1 pass hnone => cases h
  | case2 pass next hsome ih =>
    rcases List.mem_cons.mp h with rfl | hmem
    · exact List.subset_cons_self _ _
    · exact List.Subset.trans (ih hmem) (List.subset_cons_self _ _)

end Pass

namespace Settings

/-! ## Which passes run -/

/-- The pass and all its prerequisites are asked for. -/
def allows (s : Settings) (pass : Pass) : Bool :=
  s.isOn pass && pass.prerequisites.all s.isOn

/-- A pass is allowed if it is asked for and the pass that it requires is allowed. -/
theorem allows_eq (s : Settings) (pass : Pass) :
    s.allows pass = (s.isOn pass && pass.requires?.all s.allows) := by
  cases hrequires : pass.requires? with
  | none => rw [allows, Pass.prerequisites_of_none hrequires, List.all_nil, Option.all_none]
  | some required =>
    rw [allows, Pass.prerequisites_of_some hrequires, List.all_cons, Option.all_some, allows]

/-- The prerequisites of an allowed pass are allowed. -/
theorem allows_of_mem_prerequisites {s : Settings} {pass required : Pass}
    (h : s.allows pass = true) (hmem : required ∈ pass.prerequisites) :
    s.allows required = true := by
  rw [allows, Bool.and_eq_true, List.all_eq_true] at h ⊢
  exact ⟨h.2 required hmem, fun other hother => h.2 other (Pass.prerequisites_subset hmem hother)⟩

/-- What a pass requires stands before it. -/
theorem mem_of_requires? {done rest : List Pass} {pass required : Pass}
    (hall : done ++ pass :: rest = Pass.all) (h : pass.requires? = some required) :
    required ∈ done := by
  have hbefore := Pass.before_of_requires? h
  have hpairwise := Pass.pairwise_before
  have hmem := Pass.mem_all required
  rw [← hall] at hpairwise hmem
  rcases List.mem_append.mp hmem with hdone | hlater
  · exact hdone
  · exfalso
    rcases List.mem_cons.mp hlater with rfl | hrest
    · exact Nat.lt_irrefl _ hbefore
    · have hafter := (List.pairwise_cons.mp (List.pairwise_append.mp hpairwise).2.1).1 required hrest
      exact Nat.lt_asymm hbefore hafter

/-- The sweep over the passes that are left, when all allowed passes before them ran. -/
theorem activeAmong_eq_filter (s : Settings) {done ran rest : List Pass}
    (hall : done ++ rest = Pass.all)
    (hran : ∀ pass, pass ∈ ran ↔ pass ∈ done ∧ s.allows pass = true) :
    s.activeAmong ran rest = rest.filter s.allows := by
  induction rest generalizing done ran with
  | nil => rfl
  | cons pass rest ih =>
    have hall' : (done ++ [pass]) ++ rest = Pass.all := by
      rw [List.append_assoc]
      exact hall
    -- The pass that is required stands before, so it ran if it is allowed.
    have htest : (s.isOn pass && pass.requires?.all ran.contains) = s.allows pass := by
      rw [allows_eq]
      cases hrequires : pass.requires? with
      | none => rfl
      | some required =>
        have hdone := mem_of_requires? hall hrequires
        rw [Option.all_some, Option.all_some]
        congr 1
        rw [Bool.eq_iff_iff, List.contains_iff_mem, hran required]
        exact ⟨fun hand => hand.2, fun hallows => ⟨hdone, hallows⟩⟩
    rw [activeAmong, htest, List.filter_cons]
    by_cases hallows : s.allows pass = true
    · rw [if_pos hallows, if_pos hallows, ih hall']
      intro other
      rw [List.mem_cons, hran other, List.mem_append, List.mem_singleton]
      constructor
      · rintro (rfl | ⟨hdone, hother⟩)
        · exact ⟨.inr rfl, hallows⟩
        · exact ⟨.inl hdone, hother⟩
      · rintro ⟨hdone | rfl, hother⟩
        · exact .inr ⟨hdone, hother⟩
        · exact .inl rfl
    · rw [if_neg hallows, if_neg hallows, ih hall']
      intro other
      rw [hran other, List.mem_append, List.mem_singleton]
      constructor
      · exact fun hand => ⟨.inl hand.1, hand.2⟩
      · rintro ⟨hdone | rfl, hother⟩
        · exact ⟨hdone, hother⟩
        · exact absurd hother hallows

/-- **The passes that run are those asked for with all their prerequisites**, in their order. -/
theorem active_eq_filter (s : Settings) : s.active = Pass.all.filter s.allows :=
  s.activeAmong_eq_filter (List.nil_append _) (by simp)

/-- A pass is active if its settings allow it. -/
theorem mem_active_iff (s : Settings) (pass : Pass) : pass ∈ s.active ↔ s.allows pass = true := by
  rw [active_eq_filter, List.mem_filter]
  exact ⟨fun hand => hand.2, fun hallows => ⟨Pass.mem_all pass, hallows⟩⟩

/-- The passes that are skipped are asked for and not allowed. -/
theorem skipped_eq_filter (s : Settings) :
    s.skipped = Pass.all.filter fun pass => s.isOn pass && !s.allows pass := by
  have hcontains (pass : Pass) : s.active.contains pass = s.allows pass := by
    rw [Bool.eq_iff_iff, List.contains_iff_mem, mem_active_iff]
  rw [skipped]
  simp only [hcontains]

/-- A skipped pass is not allowed. -/
theorem allows_of_mem_skipped {s : Settings} {pass : Pass} (h : pass ∈ s.skipped) :
    s.allows pass = false := by
  rw [skipped_eq_filter, List.mem_filter, Bool.and_eq_true, Bool.not_eq_true'] at h
  exact h.2.2

/-- A pass that is skipped requires another one. -/
theorem requires?_ne_none_of_mem_skipped {s : Settings} {pass : Pass} (h : pass ∈ s.skipped) :
    pass.requires? ≠ none := by
  intro hrequires
  have hallows := allows_of_mem_skipped h
  rw [skipped_eq_filter, List.mem_filter, Bool.and_eq_true] at h
  rw [allows_eq, hrequires, h.2.1] at hallows
  cases hallows

/-! ## Turning a pass off -/

/-- Switching a pass leaves the others. -/
theorem value_switch_of_ne (s : Settings) {pass other : Pass} (h : pass ≠ other) (on : Bool) :
    (s.switch pass on).value other = s.value other :=
  dif_neg h

theorem isOn_switch_self (s : Settings) (pass : Pass) (on : Bool) :
    (s.switch pass on).isOn pass = on := by
  have hvalue : (s.switch pass on).value pass = (s.value pass).switch on := dif_pos rfl
  rw [isOn, hvalue, Setting.switch]
  split
  · next hon => exact hon.symm
  · rfl

theorem isOn_switch_of_ne (s : Settings) {pass other : Pass} (h : pass ≠ other) (on : Bool) :
    (s.switch pass on).isOn other = s.isOn other := by
  rw [isOn, s.value_switch_of_ne h, isOn]

/-- Turning off a pass that is not allowed allows and forbids no pass. -/
theorem allows_switch {s : Settings} {pass : Pass} (h : s.allows pass = false) (other : Pass) :
    (s.switch pass false).allows other = s.allows other := by
  by_cases hself : pass = other
  · rw [← hself, h, allows, isOn_switch_self, Bool.false_and]
  · by_cases hmem : pass ∈ other.prerequisites
    · -- Neither setting allows a pass that needs this one.
      have hbefore : s.allows other = false := by
        rw [Bool.eq_false_iff]
        intro hallows
        rw [allows_of_mem_prerequisites hallows hmem] at h
        cases h
      have hafter : (s.switch pass false).allows other = false := by
        rw [Bool.eq_false_iff]
        intro hallows
        have hon := allows_of_mem_prerequisites hallows hmem
        rw [allows, isOn_switch_self, Bool.false_and] at hon
        cases hon
      rw [hbefore, hafter]
    · have hothers : other.prerequisites.all (s.switch pass false).isOn =
          other.prerequisites.all s.isOn := by
        rw [Bool.eq_iff_iff, List.all_eq_true, List.all_eq_true]
        refine forall₂_congr fun required hrequired => ?_
        have hne : pass ≠ required := fun heq => hmem (heq ▸ hrequired)
        rw [s.isOn_switch_of_ne hne]
      rw [allows, s.isOn_switch_of_ne hself, hothers, allows]

/-- A pass that is not allowed may be switched off. -/
theorem active_switch {s : Settings} {pass : Pass} (h : s.allows pass = false) :
    (s.switch pass false).active = s.active := by
  rw [active_eq_filter, active_eq_filter]
  exact List.filter_congr fun other _ => allows_switch h other

/-- Turning off a skipped pass changes what passes know only by the names that this pass lists. -/
theorem context_switch {s : Settings} {pass : Pass} (h : pass ∈ s.skipped) :
    (s.switch pass false).context =
      { s.context with defaultAttributeFilter := (s.switch pass false).attributeFilter } := by
  have hne : pass ≠ .relativeLinks := by
    rintro rfl
    exact requires?_ne_none_of_mem_skipped h rfl
  have hdomains : (s.switch pass false).localDomains = s.localDomains := by
    rw [localDomains, s.value_switch_of_ne hne, localDomains]
  rw [context, hdomains, active_switch (allows_of_mem_skipped h)]
  rfl

end Settings

/-! ## Runs -/

variable {read? : String → Option Url}

/-- Only one pass reads the names of attributes. -/
theorem Pass.apply_congr_filter {pass : Pass} (h : pass ≠ .removeDefaultAttributes) (ctx : Context)
    (filter : Option (List String)) :
    pass.apply read? { ctx with defaultAttributeFilter := filter } = pass.apply read? ctx := by
  cases pass with
  | removeDefaultAttributes => exact absurd rfl h
  | _ => rfl

/-- **A run depends on what is known to its passes, and to no others.** -/
theorem Run.passes_congr {ctx ctx' : Context} {passes : List Pass}
    (h : ∀ pass ∈ passes, pass.apply read? ctx' = pass.apply read? ctx) (options : WriteOptions) :
    Run.passes read? ctx' options passes = Run.passes read? ctx options passes := by
  induction passes generalizing options with
  | nil => rfl
  | cons pass rest ih =>
    rw [Run.passes, Run.passes, h pass List.mem_cons_self]
    have hrest := ih (fun other hother => h other (List.mem_cons_of_mem pass hother))
      (pass.adjust options)
    simp only [hrest]

namespace Settings

/-- Turning off a skipped pass changes no run. -/
theorem run_switch {s : Settings} {pass : Pass} (h : pass ∈ s.skipped) :
    Run.settings read? (s.switch pass false) = Run.settings read? s := by
  have hallows := allows_of_mem_skipped h
  rw [Run.settings, Run.settings, active_switch hallows, context_switch h]
  refine Run.passes_congr (fun other hother => ?_) {}
  by_cases hne : other = .removeDefaultAttributes
  · -- The pass that reads the list runs, so it is not the one that is skipped.
    have hpass : pass ≠ .removeDefaultAttributes := by
      rintro rfl
      rw [mem_active_iff, hne, hallows] at hother
      cases hother
    have hfilter : (s.switch pass false).attributeFilter = s.attributeFilter := by
      rw [attributeFilter, s.value_switch_of_ne hpass, attributeFilter]
    rw [hfilter]
    rfl
  · exact Pass.apply_congr_filter hne s.context _

/-- **Switching off a pass that is skipped does not change what is written.** -/
theorem minify?_switch {s : Settings} {pass : Pass} (h : pass ∈ s.skipped) (page : String) :
    (s.switch pass false).minify? read? page = s.minify? read? page := by
  rw [minify?, run_switch h, minify?]
  rfl

/-- **A pass runs only with all its prerequisites.** The passes that run are those that are asked for
with the whole chain of their prerequisites, the others that are asked for are skipped, both in their
order. Turning off a skipped pass changes neither the page that comes out nor which passes run. -/
theorem gated_by_prerequisites (s : Settings) (read? : String → Option Url) :
    s.active =
        (Pass.all.filter fun pass => s.isOn pass && pass.prerequisites.all s.isOn) ∧
      s.skipped =
        (Pass.all.filter fun pass => s.isOn pass && !pass.prerequisites.all s.isOn) ∧
      ∀ pass ∈ s.skipped, ∀ page : String,
        (s.switch pass false).minify read? page = s.minify read? page ∧
          ((s.switch pass false).minifyWithReport read? page).2.passesRun =
            (s.minifyWithReport read? page).2.passesRun := by
  refine ⟨s.active_eq_filter, ?_, fun pass hpass page => ⟨?_, ?_⟩⟩
  · rw [skipped_eq_filter]
    refine List.filter_congr fun pass _ => ?_
    rw [allows]
    cases s.isOn pass <;> rfl
  · rw [minify, minifyWithReport, minify?_switch hpass, minify, minifyWithReport]
  · exact active_switch (allows_of_mem_skipped hpass)

/-- Default values are to go, but the passes on the document are off, and with them all that needs
them. -/
def gatedSettings : Settings :=
  ((off.switch .attributePasses true).switch .omitQuotes true).put .removeDefaultAttributes
    (.list ["method"])

/-- The default method of a form is left, since a pass that this one requires is off. -/
theorem gated_by_prerequisites_form :
    Pass.removeDefaultAttributes ∈ gatedSettings.skipped ∧
      (gatedSettings.switch .removeDefaultAttributes false).minify Url.parse?
          "<form method=\"get\"></form>" =
        gatedSettings.minify Url.parse? "<form method=\"get\"></form>" := by
  have hskipped : Pass.removeDefaultAttributes ∈ gatedSettings.skipped := by decide
  exact ⟨hskipped, ((gatedSettings.gated_by_prerequisites Url.parse?).2.2 _ hskipped _).1⟩

end Settings

end HtmlMinify
