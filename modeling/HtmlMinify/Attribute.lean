import HtmlMinify.Text.Ascii
import Std.Data.HashSet

/-! # Attribute lists

The attributes of a start tag in the order written. Keys compare without ASCII case. `insert` keeps
the first of two equal keys, so a list built by it never holds a key twice; names can also be
overwritten without check, which `firstDuplicate?` then finds.
-/

namespace HtmlMinify

/-- One attribute; a bare one has no value, which differs from an empty value. -/
structure Attribute where
  name : String
  value : Option String
deriving Repr, DecidableEq, Inhabited

namespace Attribute

/-- The name as keys compare it. -/
def key (a : Attribute) : String :=
  Text.lower a.name

/-- The key, ASCII case aside, is `name`. -/
def is (a : Attribute) (name : String) : Bool :=
  Text.sameIgnoringCase a.name name

/-- The value as pages see it: a bare attribute has the empty one. -/
def valueOrEmpty (a : Attribute) : String :=
  a.value.getD ""

end Attribute

/-- Attributes in the order written. -/
structure Attributes where
  toList : List Attribute := []
deriving Repr, DecidableEq, Inhabited

namespace Attributes

/-- No attributes. -/
def empty : Attributes := {}

/-- The first attribute with this key. -/
def get? (as : Attributes) (name : String) : Option Attribute :=
  as.toList.find? (·.is name)

/-- The value under this key; a bare attribute has the empty one. -/
def value? (as : Attributes) (name : String) : Option String :=
  (as.get? name).map (·.valueOrEmpty)

/-- Some attribute has this key. -/
def contains (as : Attributes) (name : String) : Bool :=
  let key := Text.lower name
  as.toList.any (·.key == key)

/-- Adds an attribute at the end unless its key is taken. -/
def insert (as : Attributes) (a : Attribute) : Attributes :=
  if as.contains a.name then as else ⟨as.toList ++ [a]⟩

/-- Adds an attribute at the end unless its key is taken, and tells whether it was added. -/
def insertNew (as : Attributes) (a : Attribute) : Bool × Attributes :=
  (!as.contains a.name, as.insert a)

/-- Drops the first attribute with this key. -/
def erase (as : Attributes) (name : String) : Attributes :=
  ⟨as.toList.eraseP (·.is name)⟩

/-- Takes out the first attribute with this key, if there is one. -/
def remove (as : Attributes) (name : String) : Option Attribute × Attributes :=
  match as.toList.findIdx? (·.is name) with
  | some index => (as.toList[index]?, ⟨as.toList.eraseIdx index⟩)
  | none => (none, as)

/-- Keeps the attributes that satisfy `p`. -/
def filter (as : Attributes) (p : Attribute → Bool) : Attributes :=
  ⟨as.toList.filter p⟩

/-- Order by lower-case name, code point by code point. -/
def nameLe (a b : Attribute) : Bool :=
  decide (Text.lower a.name ≤ Text.lower b.name)

/-- Stable sort by lower-case name. -/
def sortByName (as : Attributes) : Attributes :=
  ⟨as.toList.mergeSort nameLe⟩

/-- Overwrites the name at a position, without regard to other keys. -/
def rename (as : Attributes) (index : Nat) (name : String) : Attributes :=
  ⟨as.toList.modify index fun a => { a with name }⟩

/-- Number of attributes. -/
def size (as : Attributes) : Nat :=
  as.toList.length

/-- The first name whose key is in `seen` or occurs earlier in the list. -/
def duplicateAfter? (seen : Std.HashSet String) : List Attribute → Option String
  | [] => none
  | a :: rest =>
    if seen.contains a.key then some a.name else duplicateAfter? (seen.insert a.key) rest

/-- The first name whose key occurs earlier in the list. -/
def firstDuplicate? (as : Attributes) : Option String :=
  duplicateAfter? ∅ as.toList

/-- The attributes whose key neither is in `seen` nor occurs earlier in the list. -/
def distinctAfter (seen : Std.HashSet String) : List Attribute → List Attribute
  | [] => []
  | a :: rest =>
    if seen.contains a.key then distinctAfter seen rest
    else a :: distinctAfter (seen.insert a.key) rest

/-- A list from attributes in order, the first of equal keys kept. -/
def ofList (items : List Attribute) : Attributes :=
  ⟨distinctAfter ∅ items⟩

/-- Inserting attributes one by one adds those with new keys. -/
theorem toList_foldl_insert (items : List Attribute) (as : Attributes) (seen : Std.HashSet String)
    (h : ∀ key, seen.contains key = as.toList.any (·.key == key)) :
    (items.foldl insert as).toList = as.toList ++ distinctAfter seen items := by
  induction items generalizing as seen with
  | nil => simp [distinctAfter]
  | cons a rest ih =>
    rw [List.foldl_cons, distinctAfter, insert, h a.key]
    by_cases taken : as.toList.any (·.key == a.key) = true
    · have : as.contains a.name = true := taken
      rw [if_pos this, if_pos taken, ih as seen h]
    · have : ¬ as.contains a.name = true := taken
      rw [if_neg this, if_neg taken, ih ⟨as.toList ++ [a]⟩ (seen.insert a.key)]
      · simp
      · intro key
        rw [Std.HashSet.contains_insert, h key, List.any_append, Bool.or_comm]
        simp

/-- Reading a list is inserting its attributes one by one. -/
theorem ofList_eq_foldl_insert (items : List Attribute) :
    ofList items = items.foldl insert empty := by
  have := toList_foldl_insert items empty ∅ (by simp [empty])
  cases h : items.foldl insert empty
  simp_all [ofList, empty]

end Attributes

end HtmlMinify
