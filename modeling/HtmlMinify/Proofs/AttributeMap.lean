import HtmlMinify.Proofs.AttributeRules
import Mathlib.Logic.Function.Basic

/-!
# Attribute lists as maps

An attribute list that starts empty and changes only by `insertNew`, `remove`, `filter` and
`sortByName` is a map from keys to attributes that remembers an order of its keys. `KeyMap` is that
map, with the same four operations, and `Attributes.Shows` says that a list holds what a map says.
Every operation keeps the two together and gives the same reply on both, so any number of them does.

Names can also be overwritten without check. What `firstDuplicate?` finds is stated of any list.

## Main statements

* `Attributes.Shows.apply`, `Attributes.Shows.runAll`: one operation, and any number of them.
* `Attributes.firstDuplicate?_eq_some_iff`: the first name whose key occurs earlier.
* `Attributes.behaves_as_map`: an attribute list is an ordered map in which the first of two equal
  keys wins.
-/

namespace HtmlMinify

open Text

/-! ## Maps with ordered keys -/

/-- A map from keys to attributes, and the order of its keys. -/
structure KeyMap where
  keys : List String
  entry : String → Option Attribute

namespace KeyMap

/-- No keys. -/
def empty : KeyMap := ⟨[], fun _ => none⟩

/-- A new key comes last; a key that is present keeps its attribute. -/
def insert (m : KeyMap) (a : Attribute) : Bool × KeyMap :=
  match m.entry a.key with
  | some _ => (false, m)
  | none => (true, ⟨m.keys ++ [a.key], Function.update m.entry a.key (some a)⟩)

/-- Deletes a key, and gives the attribute that it had. -/
def remove (m : KeyMap) (key : String) : Option Attribute × KeyMap :=
  (m.entry key, ⟨m.keys.erase key, Function.update m.entry key none⟩)

/-- Keeps the keys whose attribute satisfies `p`. -/
def filter (m : KeyMap) (p : Attribute → Bool) : KeyMap :=
  ⟨m.keys.filter fun key => (m.entry key).any p, fun key => (m.entry key).filter p⟩

/-- Puts the keys in order; the attributes stay with their keys. -/
def sort (m : KeyMap) : KeyMap :=
  { m with keys := m.keys.mergeSort fun key other => decide (key ≤ other) }

end KeyMap

namespace Attributes

/-! ## Operations -/

/-- A change of an attribute list. -/
inductive Operation where
  | insert (a : Attribute)
  | remove (name : String)
  | filter (p : Attribute → Bool)
  | sort

/-- What an operation gives back. -/
inductive Reply where
  | nothing
  | added (new : Bool)
  | removed (entry : Option Attribute)
deriving Repr, DecidableEq

/-- An operation on an attribute list. -/
def Operation.apply : Operation → Attributes → Reply × Attributes
  | insert a, as => (.added (as.insertNew a).1, (as.insertNew a).2)
  | remove name, as => (.removed (as.remove name).1, (as.remove name).2)
  | filter p, as => (.nothing, as.filter p)
  | sort, as => (.nothing, as.sortByName)

/-- The operation on a map. Names count as keys only, whatever their letter case. -/
def Operation.applyMap : Operation → KeyMap → Reply × KeyMap
  | insert a, m => (.added (m.insert a).1, (m.insert a).2)
  | remove name, m => (.removed (m.remove (lower name)).1, (m.remove (lower name)).2)
  | filter p, m => (.nothing, m.filter p)
  | sort, m => (.nothing, m.sort)

/-- Operations one after the other: their replies, and what is there at the end. -/
def runAll {State : Type} (apply : Operation → State → Reply × State) :
    List Operation → State → List Reply × State
  | [], state => ([], state)
  | op :: ops, state =>
    ((apply op state).1 :: (runAll apply ops (apply op state).2).1,
      (runAll apply ops (apply op state).2).2)

variable {as : Attributes} {m : KeyMap}

/-- An attribute is there if it can be looked up. -/
theorem contains_eq_isSome_get? (as : Attributes) (name : String) :
    as.contains name = (as.get? name).isSome := by
  rw [Bool.eq_iff_iff, contains_iff, get?, List.find?_isSome]

/-- Taking out an attribute gives it and drops it. -/
theorem remove_eq (as : Attributes) (name : String) :
    as.remove name = (as.get? name, as.erase name) := by
  rw [remove, get?, erase, List.find?_eq_bind_findIdx?_getElem?, List.eraseP_eq_eraseIdx]
  cases as.toList.findIdx? (·.is name) <;> rfl

/-- An erased key is gone, and the attributes with other keys stay. -/
theorem get?_erase (h : as.Distinct) (name other : String) :
    (as.erase name).get? other = if lower other = lower name then none else as.get? other := by
  split
  · next hother =>
    rw [← Option.not_isSome_iff_eq_none, ← contains_eq_isSome_get?, Bool.not_eq_true, contains,
      hother]
    exact contains_erase h
  · next hother =>
    have hdistinct : (as.erase name).Distinct := h.of_sublist List.eraseP_sublist
    refine Option.ext fun a => ?_
    rw [get?_eq_some_iff hdistinct, get?_eq_some_iff h]
    refine and_congr_left fun his => List.mem_eraseP_of_neg fun hname => hother ?_
    rw [← Attribute.is_iff.mp his, Attribute.is_iff.mp hname]

/-! ## Lists that show a map -/

/-- The list holds what the map says: each attribute once, under its key, in the order of the
keys. -/
structure Shows (as : Attributes) (m : KeyMap) : Prop where
  distinct : as.Distinct
  keys : as.toList.map (·.key) = m.keys
  entry : ∀ name, as.get? name = m.entry (lower name)

theorem shows_empty : empty.Shows .empty where
  distinct := List.nodup_nil
  keys := rfl
  entry _ := rfl

/-- An attribute of the list is the entry of its key. -/
theorem Shows.entry_key (h : as.Shows m) {a : Attribute} (ha : a ∈ as.toList) :
    m.entry a.key = some a := by
  have hget : as.get? a.name = some a :=
    (get?_eq_some_iff h.distinct).mpr ⟨ha, Attribute.is_iff.mpr rfl⟩
  exact (h.entry a.name).symm.trans hget

/-- A new key comes last. -/
theorem Shows.append (h : as.Shows m) {a : Attribute} (hentry : m.entry a.key = none) :
    Shows ⟨as.toList ++ [a]⟩ ⟨m.keys ++ [a.key], Function.update m.entry a.key (some a)⟩ := by
  have hnew : a.key ∉ as.toList.map (·.key) := by
    intro hmem
    obtain ⟨b, hb, hkey⟩ := List.mem_map.mp hmem
    have hb' := h.entry_key hb
    rw [hkey, hentry] at hb'
    cases hb'
  refine ⟨?_, ?_, fun name => ?_⟩
  · rw [Distinct, List.map_append, List.map_singleton, ← List.concat_eq_append, List.nodup_concat]
    exact ⟨hnew, h.distinct⟩
  · rw [List.map_append, h.keys, List.map_singleton]
  · have hget : get? ⟨as.toList ++ [a]⟩ name =
        (as.get? name).or (if a.is name then some a else none) := by
      rw [get?, List.find?_append, get?, List.find?_singleton]
    rw [hget, h.entry]
    dsimp only
    by_cases his : a.is name = true
    · rw [if_pos his, ← Attribute.is_iff.mp his, hentry, Function.update_self, Option.none_or]
    · have hkey : lower name ≠ a.key := fun heq => his (Attribute.is_iff.mpr heq.symm)
      rw [if_neg his, Option.or_none, Function.update_of_ne hkey]

/-- **A key that is present is not inserted again**, in whatever letter case. -/
theorem Shows.insertNew (h : as.Shows m) (a : Attribute) :
    (as.insertNew a).1 = (m.insert a).1 ∧ (as.insertNew a).2.Shows (m.insert a).2 := by
  have htaken : as.contains a.name = (m.entry a.key).isSome := by
    rw [contains_eq_isSome_get?, h.entry]
    rfl
  rw [Attributes.insertNew, Attributes.insert, KeyMap.insert, htaken]
  cases hentry : m.entry a.key with
  | some b => exact ⟨rfl, h⟩
  | none => exact ⟨rfl, h.append hentry⟩

/-- Attributes without one of them show the map without it. -/
theorem Shows.erase (h : as.Shows m) (name : String) :
    (as.erase name).Shows
      ⟨m.keys.erase (lower name), Function.update m.entry (lower name) none⟩ := by
  have hdistinct : (as.erase name).Distinct := h.distinct.of_sublist List.eraseP_sublist
  refine ⟨hdistinct, ?_, fun other => ?_⟩
  · have hsame : (fun a : Attribute => a.is name) = (lower name == ·) ∘ Attribute.key := by
      funext a
      exact Bool.beq_comm
    rw [← h.keys, List.erase_eq_eraseP, List.eraseP_map, ← hsame]
    rfl
  · dsimp only
    rw [get?_erase h.distinct, h.entry, Function.update_apply]

/-- **Removing deletes the key and gives its entry.** -/
theorem Shows.remove (h : as.Shows m) (name : String) :
    (as.remove name).1 = (m.remove (lower name)).1 ∧
      (as.remove name).2.Shows (m.remove (lower name)).2 := by
  rw [remove_eq]
  exact ⟨h.entry name, h.erase name⟩

/-- **Filtering keeps the keys whose attribute is kept.** -/
theorem Shows.filter (h : as.Shows m) (p : Attribute → Bool) :
    (as.filter p).Shows (m.filter p) := by
  have hdistinct : (as.filter p).Distinct := h.distinct.of_sublist List.filter_sublist
  refine ⟨hdistinct, ?_, fun name => Option.ext fun a => ?_⟩
  · have hkept : as.toList.filter ((fun key => (m.entry key).any p) ∘ Attribute.key) =
        as.toList.filter p := by
      refine List.filter_congr fun a ha => ?_
      rw [Function.comp_apply, h.entry_key ha, Option.any_some]
    rw [KeyMap.filter, ← h.keys, List.filter_map, hkept]
    rfl
  · rw [KeyMap.filter, Option.filter_eq_some_iff, ← h.entry, get?_eq_some_iff hdistinct,
      get?_eq_some_iff h.distinct, Attributes.filter, List.mem_filter]
    exact and_right_comm

/-- **Sorting changes the order of the keys only.** -/
theorem Shows.sortByName (h : as.Shows m) : as.sortByName.Shows m.sort := by
  have hperm : as.sortByName.toList.Perm as.toList := List.mergeSort_perm _ _
  have hdistinct : as.sortByName.Distinct := (hperm.map _).nodup_iff.mpr h.distinct
  refine ⟨hdistinct, ?_, fun name => Option.ext fun a => ?_⟩
  · rw [KeyMap.sort, ← h.keys]
    exact List.map_mergeSort fun _ _ _ _ => rfl
  · rw [KeyMap.sort, ← h.entry, get?_eq_some_iff hdistinct, get?_eq_some_iff h.distinct,
      hperm.mem_iff]

/-- **One operation keeps list and map together**, and gives the same reply on both. -/
theorem Shows.apply (h : as.Shows m) (op : Operation) :
    (op.apply as).1 = (op.applyMap m).1 ∧ (op.apply as).2.Shows (op.applyMap m).2 := by
  cases op with
  | insert a =>
    obtain ⟨hreply, hshows⟩ := h.insertNew a
    exact ⟨congrArg Reply.added hreply, hshows⟩
  | remove name =>
    obtain ⟨hreply, hshows⟩ := h.remove name
    exact ⟨congrArg Reply.removed hreply, hshows⟩
  | filter p => exact ⟨rfl, h.filter p⟩
  | sort => exact ⟨rfl, h.sortByName⟩

/-- **Any number of operations keeps list and map together.** -/
theorem Shows.runAll (h : as.Shows m) (ops : List Operation) :
    (runAll Operation.apply ops as).1 = (runAll Operation.applyMap ops m).1 ∧
      (runAll Operation.apply ops as).2.Shows (runAll Operation.applyMap ops m).2 := by
  induction ops generalizing as m with
  | nil => exact ⟨rfl, h⟩
  | cons op ops ih =>
    obtain ⟨hreply, hshows⟩ := h.apply op
    obtain ⟨hreplies, hfinal⟩ := ih hshows
    exact ⟨congrArg₂ List.cons hreply hreplies, hfinal⟩

/-! ## Keys that occur twice -/

/-- **The duplicate that is found** is the first attribute with a key that was seen. -/
theorem duplicateAfter?_eq_some_iff {seen : Std.HashSet String} {items : List Attribute}
    {name : String} :
    duplicateAfter? seen items = some name ↔
      ∃ before a after, items = before ++ a :: after ∧ a.name = name ∧
        (seen.contains a.key = true ∨ ∃ b ∈ before, b.key = a.key) ∧
        duplicateAfter? seen before = none := by
  induction items generalizing seen with
  | nil => simp [duplicateAfter?]
  | cons first rest ih =>
    rw [duplicateAfter?]
    split
    · next hseen =>
      rw [Option.some.injEq]
      constructor
      · rintro rfl
        exact ⟨[], first, rest, rfl, rfl, .inl hseen, rfl⟩
      · rintro ⟨before, a, after, hsplit, hname, -, hnone⟩
        cases before with
        | nil =>
          cases hsplit
          exact hname
        | cons b before =>
          cases hsplit
          rw [duplicateAfter?, if_pos hseen] at hnone
          cases hnone
    · next hnew =>
      rw [ih]
      constructor
      · rintro ⟨before, a, after, rfl, hname, hearlier, hnone⟩
        refine ⟨first :: before, a, after, rfl, hname, ?_, ?_⟩
        · simpa [Std.HashSet.contains_insert, or_assoc, or_left_comm] using hearlier
        · rw [duplicateAfter?, if_neg hnew, hnone]
      · rintro ⟨before, a, after, hsplit, hname, hearlier, hnone⟩
        cases before with
        | nil =>
          cases hsplit
          rcases hearlier with hseen | ⟨b, hb, -⟩
          · exact absurd hseen hnew
          · cases hb
        | cons b before =>
          cases hsplit
          rw [duplicateAfter?, if_neg hnew] at hnone
          refine ⟨before, a, after, rfl, hname, ?_, hnone⟩
          simpa [Std.HashSet.contains_insert, or_assoc, or_left_comm] using hearlier

/-- **The duplicate that is found is the first**: its key occurs earlier, and no key occurs twice
among the attributes before it. -/
theorem firstDuplicate?_eq_some_iff {name : String} :
    as.firstDuplicate? = some name ↔
      ∃ before a after, as.toList = before ++ a :: after ∧ a.name = name ∧
        (∃ b ∈ before, b.is a.name = true) ∧ Distinct ⟨before⟩ := by
  have hfirst (before : List Attribute) :
      duplicateAfter? ∅ before = none ↔ Distinct ⟨before⟩ :=
    @firstDuplicate?_eq_none_iff ⟨before⟩
  simp only [firstDuplicate?, duplicateAfter?_eq_some_iff, hfirst, Attribute.is_iff]
  simp [Attribute.key]

/-! ## The map -/

/-- **An attribute list is an ordered map in which the first of two equal keys wins.** After any
operations on an empty list, replies, keys and lookups are those of the map, no key occurs twice,
and sorting puts the list in order without a change to any lookup. Of any list whatever, the
duplicate that is found is the first name whose key occurs earlier, and none is found exactly if the
keys are distinct. -/
theorem behaves_as_map :
    (∀ ops : List Operation,
      let list := runAll Operation.apply ops empty
      let map := runAll Operation.applyMap ops .empty
      list.1 = map.1 ∧
      list.2.firstDuplicate? = none ∧
      list.2.toList.map (·.key) = map.2.keys ∧
      (∀ name,
        list.2.get? name = map.2.entry (lower name) ∧
        list.2.value? name = (map.2.entry (lower name)).map (·.valueOrEmpty) ∧
        list.2.contains name = (map.2.entry (lower name)).isSome) ∧
      (list.2.sortByName.toList.Pairwise fun a b => lower a.name ≤ lower b.name) ∧
      list.2.sortByName.toList.Perm list.2.toList ∧
      ∀ name, list.2.sortByName.get? name = list.2.get? name) ∧
    ∀ as : Attributes,
      (∀ name, as.firstDuplicate? = some name ↔
        ∃ before a after, as.toList = before ++ a :: after ∧ a.name = name ∧
          (∃ b ∈ before, b.is a.name = true) ∧ Distinct ⟨before⟩) ∧
      (as.firstDuplicate? = none ↔ as.Distinct) := by
  refine ⟨fun ops => ?_, fun as =>
    ⟨fun _ => firstDuplicate?_eq_some_iff, firstDuplicate?_eq_none_iff⟩⟩
  obtain ⟨hreplies, hshows⟩ := shows_empty.runAll ops
  refine ⟨hreplies, firstDuplicate?_eq_none_iff.mpr hshows.distinct, hshows.keys, fun name => ?_,
    ?_, List.mergeSort_perm _ _, fun name => ?_⟩
  · have hget := hshows.entry name
    exact ⟨hget, by rw [value?, hget], by rw [contains_eq_isSome_get?, hget]⟩
  · exact (AttributeRule.ordered_sortByName _).imp fun hle => of_decide_eq_true hle
  · rw [hshows.sortByName.entry, hshows.entry]
    rfl

example :
    (runAll Operation.apply
      [.insert ⟨"ID", none⟩, .insert ⟨"id", some "x"⟩, .remove "Id"] empty).1 =
        [.added true, .added false, .removed (some ⟨"ID", none⟩)] := by
  decide

end Attributes

end HtmlMinify
