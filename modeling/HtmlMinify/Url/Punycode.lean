/-! # Punycode

Writes a text in ASCII: its ASCII characters, a hyphen if there are any, and then where to insert
the other characters, in order of code point. A place is written as the number of steps from the
one before, in digits of radix 36, lowest first. A digit below a threshold is the last of its
number; the thresholds adapt to the numbers written so far.
-/

namespace HtmlMinify.Punycode

/-! ## Digits -/

/-- The digits are the letters, then the decimal digits. -/
def digitChar (d : Nat) : Char :=
  if d < 26 then Char.ofNat (0x61 + d) else Char.ofNat (0x30 + (d - 26))

/-- The value of a digit; the case of letters does not count. -/
def digitValue? (c : Char) : Option Nat :=
  if 'a' ≤ c ∧ c ≤ 'z' then some (c.toNat - 0x61)
  else if 'A' ≤ c ∧ c ≤ 'Z' then some (c.toNat - 0x41)
  else if '0' ≤ c ∧ c ≤ '9' then some (c.toNat - 0x30 + 26)
  else none

/-- The threshold of the digit at position `k` of a number, counted in steps of 36 from 36. -/
def threshold (bias k : Nat) : Nat :=
  if k ≤ bias then 1 else if bias + 26 ≤ k then 26 else k - bias

/-- A digit always has room to count: thresholds are positive. -/
theorem one_le_threshold (bias k : Nat) : 1 ≤ threshold bias k := by
  unfold threshold
  split
  · omega
  · split <;> omega

/-- Divides a number until it is small, and counts 36 for each division. -/
def scale (delta count : Nat) : Nat × Nat :=
  if 455 < delta then scale (delta / 35) (count + 36) else (delta, count)
termination_by delta
decreasing_by exact Nat.div_lt_self (by omega) (by omega)

/-- The bias after the number `delta`, when the text has `length` characters by then. -/
def adapt (delta length : Nat) (isFirst : Bool) : Nat :=
  let damped := if isFirst then delta / 700 else delta / 2
  let (small, count) := scale (damped + damped / length) 0
  count + 36 * small / (small + 38)

/-! ## Writing -/

/-- The digits of a number from position `k` on. -/
def encodeNumber (bias k n : Nat) : List Char :=
  let t := threshold bias k
  if n < t then [digitChar n]
  else digitChar (t + (n - t) % (36 - t)) :: encodeNumber bias (k + 36) ((n - t) / (36 - t))
termination_by n
decreasing_by
  have := one_le_threshold bias k
  calc (n - threshold bias k) / (36 - threshold bias k)
      ≤ n - threshold bias k := Nat.div_le_self _ _
    _ < n := by omega

/-- What is known while the places of insertion are written. -/
structure Progress where
  /-- The digits so far, the last of them first. -/
  written : List Char
  /-- The steps since the last insertion. -/
  delta : Nat
  bias : Nat
  /-- How many characters are in place. -/
  length : Nat

/-- Passes a character of the text while the character `point` is inserted. -/
def passChar (basic point : Nat) (progress : Progress) (c : Char) : Progress :=
  if c.toNat < point then { progress with delta := progress.delta + 1 }
  else if c.toNat = point then
    { written := (encodeNumber progress.bias 36 progress.delta).reverse ++ progress.written
      delta := 0
      bias := adapt progress.delta (progress.length + 1) (progress.length == basic)
      length := progress.length + 1 }
  else progress

/-- Inserts the characters `points`, which are in order; those below `next` are in place. -/
def encodePoints (cs : List Char) (basic next : Nat) (progress : Progress) : List Nat → Progress
  | [] => progress
  | point :: points =>
    let start := progress.delta + (point - next) * (progress.length + 1)
    let progress := cs.foldl (passChar basic point) { progress with delta := start }
    encodePoints cs basic (point + 1) { progress with delta := progress.delta + 1 } points

/-- The ASCII form of a text. -/
def encode (cs : List Char) : List Char :=
  let basic := cs.filter (·.toNat < 0x80)
  let points := ((cs.map (·.toNat)).filter (0x80 ≤ ·)).mergeSort.eraseReps
  let progress := encodePoints cs basic.length 0x80 ⟨[], 0, 72, basic.length⟩ points
  basic ++ (if basic.isEmpty then [] else ['-']) ++ progress.written.reverse

/-! ## Reading -/

/-- Reads a number from position `k` on, where a digit counts `weight` times, and adds it to
`total`. Gives the sum and the rest of the text. -/
def decodeNumber? (bias k weight total : Nat) : List Char → Option (Nat × List Char)
  | [] => none
  | c :: cs =>
    match digitValue? c with
    | none => none
    | some d =>
      let t := threshold bias k
      let total := total + d * weight
      if d < t then some (total, cs)
      else decodeNumber? bias (k + 36) (weight * (36 - t)) total cs

/-- A number has at least one digit. -/
theorem length_decodeNumber?_lt {bias k weight total : Nat} {cs : List Char}
    {result : Nat × List Char} (h : decodeNumber? bias k weight total cs = some result) :
    result.2.length < cs.length := by
  induction cs generalizing k weight total with
  | nil => simp [decodeNumber?] at h
  | cons c cs ih =>
    simp only [decodeNumber?] at h
    split at h
    · cases h
    · split at h
      · cases h
        simp
      · have := ih h
        simp only [List.length_cons]
        omega

/-- Inserts characters into the text `out`; the last one had the code point `point`, and the next
goes to the place `place` or behind it. -/
def decodePoints? (bias point place : Nat) (out : List Char) : List Char → Option (List Char)
  | [] => some out
  | c :: cs =>
    match _h : decodeNumber? bias 36 1 place (c :: cs) with
    | none => none
    | some (total, rest) =>
      let length := out.length + 1
      let next := point + total / length
      if next.isValidChar then
        decodePoints? (adapt (total - place) length (place == 0)) next (total % length + 1)
          (out.insertIdx (total % length) (Char.ofNat next)) rest
      else none
termination_by cs => cs.length
decreasing_by exact length_decodeNumber?_lt _h

/-- Divides a text at its last hyphen. A hyphen in front of all else divides nothing. -/
def splitBasic (cs : List Char) : List Char × List Char :=
  let tail := cs.reverse.takeWhile (· != '-')
  let basic := (cs.reverse.drop (tail.length + 1)).reverse
  if basic.isEmpty then ([], cs) else (basic, tail.reverse)

/-- The text of an ASCII form; nothing if it is malformed. -/
def decode? (cs : List Char) : Option (List Char) :=
  let (basic, digits) := splitBasic cs
  if basic.all (·.toNat < 0x80) then decodePoints? 72 0x80 0 basic digits else none

end HtmlMinify.Punycode
