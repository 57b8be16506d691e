import HtmlMinify.Proofs.AttributeRules

/-!
# What the rules on addresses leave alone

The rules on addresses go through the attributes of an element one by one. An attribute keeps its
place and its name, and its value too, unless it is an address that the rule shortens. What is
shortened once is not shortened again. None of this depends on how an address is read: the passes
apply the rules to all elements, with the reader that they are given.

## Main statements

* `Links.onlyShortens_replaceAddresses`: what becomes of attributes when addresses are replaced.
* `Links.shortens_site_links_only`: of all that an element holds, only its links of the site change.
-/

namespace HtmlMinify.Links

open AttributeRule

variable {Shorter : String → String → Prop} {change? : String → Option String}

/-- An attribute with its address shortened, or as it was if it has no address to shorten. -/
inductive Readdressed (Shorter : String → String → Prop) : Attribute → Attribute → Prop where
  | shortened {name address left : String} : Tag.isUrlAttribute name = true →
    Shorter address left → Readdressed Shorter ⟨name, some address⟩ ⟨name, some left⟩
  | kept {a : Attribute} :
    (Tag.isUrlAttribute a.name = true → ∀ address ∈ a.value, ∀ left, ¬ Shorter address left) →
    Readdressed Shorter a a

/-- An attribute is shortened as the rules on addresses say. -/
theorem readdressed_of_iff
    (h : ∀ {address left}, change? address = some left ↔ Shorter address left) (a : Attribute) :
    Readdressed Shorter a (readdressed change? a) := by
  obtain ⟨name, value⟩ := a
  rw [readdressed]
  cases hnew : newAddress? change? ⟨name, value⟩ with
  | none =>
    refine .kept fun hurl address haddress left hshorter => ?_
    rw [newAddress?, if_pos hurl, Option.mem_def.mp haddress, Option.bind_some, h.mpr hshorter]
      at hnew
    cases hnew
  | some left =>
    rw [newAddress?] at hnew
    split at hnew
    · next hurl =>
      obtain ⟨address, rfl, hchange⟩ := Option.bind_eq_some_iff.mp hnew
      exact .shortened hurl (h.mp hchange)
    · cases hnew

/-- What a rule does to an element: each attribute keeps its place and its name, only addresses get
shorter, and no address does so twice. -/
structure OnlyShortens (Shorter : String → String → Prop) (rule : Content → Result)
    (c : Content) : Prop where
  each : List.Forall₂ (Readdressed Shorter) c.attributes.toList (rule c).1.toList
  again : rule { c with attributes := (rule c).1 } = keep (rule c).1

/-- A rule on addresses shortens those, and leaves the rest. -/
theorem onlyShortens_replaceAddresses (hshortens : Shortens change?)
    (h : ∀ {address left}, change? address = some left ↔ Shorter address left) (c : Content) :
    OnlyShortens Shorter (fun c => replaceAddresses change? c.attributes) c := by
  refine ⟨?_, replaceAddresses_of_rests (hshortens.rests_replaceAddresses c.attributes)⟩
  rw [replaceAddresses_eq, List.forall₂_map_right_iff, List.forall₂_same]
  exact fun a _ => readdressed_of_iff h a

/-- **Of all that an element holds, only its links of the site change**: they lose the scheme, where
links that leave the site keep it, or they lose scheme and host. -/
theorem shortens_site_links_only (read? : String → Option Url) (ctx : Context) (c : Content) :
    OnlyShortens (LosesScheme read? ctx "http:") (stripScheme read? ctx "http:") c ∧
      OnlyShortens (LosesScheme read? ctx "https:") (stripScheme read? ctx "https:") c ∧
      OnlyShortens (LosesHost read? ctx) (makeRelative read? ctx) c :=
  ⟨onlyShortens_replaceAddresses (shortens_withoutScheme? read? ctx (by rfl) (by decide))
      withoutScheme?_eq_some_iff c,
    onlyShortens_replaceAddresses (shortens_withoutScheme? read? ctx (by rfl) (by decide))
      withoutScheme?_eq_some_iff c,
    onlyShortens_replaceAddresses (shortens_relative? read? ctx) relative?_eq_some_iff c⟩

end HtmlMinify.Links
