import HtmlMinify.Text.Scan

/-! # Tables of characters

A table is written as rows of entries, each a range of code points in hexadecimal. An entry may
name only every so-manieth character of its range, and it may carry code points as its target:

* `61-7a` are the characters from U+0061 to U+007A;
* `100-12e/2` are every second of the characters from U+0100 to U+012E;
* `41-5a:61` also carries U+0061, and `132:69,6a` carries two code points.
-/

namespace HtmlMinify.Unicode

open Text

/-- The characters from `first` to `last`, each `step` after the one before, and what goes with
them. -/
structure Entry where
  first : Nat
  last : Nat
  step : Nat
  target : List Nat
deriving Repr, DecidableEq

namespace Entry

/-- A number in hexadecimal; text that writes none counts as 0. -/
def number (cs : List Char) : Nat :=
  (digits? 16 cs).getD 0

/-- The part before the first mark and the part after it, which is empty without a mark. -/
def divide (mark : Char) (cs : List Char) : List Char × List Char :=
  (breakOnChar? mark cs).getD (cs, [])

/-- Reads an entry. -/
def ofChars (cs : List Char) : Entry :=
  let (characters, target) := divide ':' cs
  let (range, step) := divide '/' characters
  let (first, last) := divide '-' range
  { first := number first
    last := if last.isEmpty then number first else number last
    step := if step.isEmpty then 1 else number step
    target := if target.isEmpty then [] else (pieces ',' target).map number }

/-- Whether the entry names the character. -/
def contains (entry : Entry) (c : Char) : Bool :=
  entry.first ≤ c.toNat && c.toNat ≤ entry.last && (c.toNat - entry.first) % entry.step == 0

/-- The target for a character of the entry: the first character has the target itself, and the
others have it shifted as they are. -/
def image (entry : Entry) (c : Char) : List Char :=
  entry.target.map fun n => Char.ofNat (n + (c.toNat - entry.first))

end Entry

/-- A set of characters, with what goes with them. -/
structure Table where
  entries : List Entry
deriving Repr, DecidableEq

namespace Table

/-- The table that rows of text write. -/
def ofRows (rows : List String) : Table where
  entries := rows.flatMap fun row => (pieces ' ' row.toList).map Entry.ofChars

/-- The entry that names the character. -/
def find? (table : Table) (c : Char) : Option Entry :=
  table.entries.find? (·.contains c)

/-- Whether the table names the character. -/
def contains (table : Table) (c : Char) : Bool :=
  table.entries.any (·.contains c)

/-- The target for the character. -/
def image? (table : Table) (c : Char) : Option (List Char) :=
  (table.find? c).map (·.image c)

end Table

end HtmlMinify.Unicode
