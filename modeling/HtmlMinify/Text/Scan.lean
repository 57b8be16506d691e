/-! # Looking ahead in text

Searches over lists of characters that give back the part before a match and the part after it.
The part after a match is a suffix of the input, and it is shorter than the input whenever the
sought text is not empty.
-/

namespace HtmlMinify.Text

/-- The first occurrence of `mark`: what stands before it and what follows it. -/
def breakOn? (mark : List Char) : List Char → Option (List Char × List Char)
  | [] =>
    match mark with
    | [] => some ([], [])
    | _ :: _ => none
  | c :: cs =>
    match mark.isPrefixOf? (c :: cs) with
    | some rest => some ([], rest)
    | none =>
      match breakOn? mark cs with
      | some (before, rest) => some (c :: before, rest)
      | none => none

/-- The first occurrence of one character: what stands before it and what follows it. -/
def breakOnChar? (mark : Char) : List Char → Option (List Char × List Char)
  | [] => none
  | c :: cs =>
    if c == mark then some ([], cs)
    else
      match breakOnChar? mark cs with
      | some (before, rest) => some (c :: before, rest)
      | none => none

/-- The pieces between occurrences of a character; one more than there are occurrences. -/
def pieces (mark : Char) : List Char → List (List Char)
  | [] => [[]]
  | c :: cs =>
    if c == mark then [] :: pieces mark cs
    else
      match pieces mark cs with
      | [] => [[c]]
      | first :: rest => (c :: first) :: rest

/-- The value of a hexadecimal digit. -/
def hexValue? (c : Char) : Option Nat :=
  if '0' ≤ c ∧ c ≤ '9' then some (c.toNat - 0x30)
  else if 'a' ≤ c ∧ c ≤ 'f' then some (c.toNat - 0x57)
  else if 'A' ≤ c ∧ c ≤ 'F' then some (c.toNat - 0x37)
  else none

/-- The number that digits write in a radix up to 16, after digits worth `high`; nothing if one is
no digit. -/
def digitsFrom? (radix high : Nat) : List Char → Option Nat
  | [] => some high
  | c :: cs =>
    match hexValue? c with
    | some d => if d < radix then digitsFrom? radix (high * radix + d) cs else none
    | none => none

/-- The number that digits write in a radix up to 16; the empty text writes 0. -/
def digits? (radix : Nat) (cs : List Char) : Option Nat :=
  digitsFrom? radix 0 cs

/-- Drops `n` bytes of the UTF-8 form; nothing if the text is shorter or the cut falls inside a
character. -/
def dropBytes? : Nat → List Char → Option (List Char)
  | 0, cs => some cs
  | _ + 1, [] => none
  | n + 1, c :: cs => if c.utf8Size ≤ n + 1 then dropBytes? (n + 1 - c.utf8Size) cs else none

/-- A text that begins with `mark` is `mark` and the rest. -/
theorem eq_append_of_isPrefixOf? {mark text rest : List Char}
    (h : mark.isPrefixOf? text = some rest) : text = mark ++ rest := by
  induction mark generalizing text with
  | nil => exact Option.some.inj h
  | cons m mark ih =>
    cases text with
    | nil => cases h
    | cons c text =>
      change (if m == c then mark.isPrefixOf? text else none) = some rest at h
      split at h
      · next hm =>
        have hm : m = c := by simpa using hm
        rw [ih h, hm, List.cons_append]
      · cases h

/-- A match splits the text around the mark. -/
theorem eq_append_of_breakOn? {mark text before rest : List Char}
    (h : breakOn? mark text = some (before, rest)) : text = before ++ mark ++ rest := by
  induction text generalizing before with
  | nil =>
    cases mark with
    | nil => simp_all [breakOn?]
    | cons m mark => simp [breakOn?] at h
  | cons c cs ih =>
    simp only [breakOn?] at h
    split at h
    · next r hp =>
      simp only [Option.some.injEq, Prod.mk.injEq] at h
      obtain ⟨rfl, rfl⟩ := h
      simpa using eq_append_of_isPrefixOf? hp
    · split at h
      · next b r hb =>
        simp only [Option.some.injEq, Prod.mk.injEq] at h
        obtain ⟨rfl, rfl⟩ := h
        simp [ih hb]
      · cases h

/-- A match splits the text around the character. -/
theorem eq_append_of_breakOnChar? {mark : Char} {text before rest : List Char}
    (h : breakOnChar? mark text = some (before, rest)) : text = before ++ mark :: rest := by
  induction text generalizing before with
  | nil => simp [breakOnChar?] at h
  | cons c cs ih =>
    simp only [breakOnChar?] at h
    split at h
    · next hc =>
      simp only [Option.some.injEq, Prod.mk.injEq] at h
      obtain ⟨rfl, rfl⟩ := h
      simpa using hc
    · split at h
      · next b r hb =>
        simp only [Option.some.injEq, Prod.mk.injEq] at h
        obtain ⟨rfl, rfl⟩ := h
        simp [ih hb]
      · cases h

/-- What follows a character is shorter than the text. -/
theorem length_breakOnChar?_lt {mark : Char} {text before rest : List Char}
    (h : breakOnChar? mark text = some (before, rest)) : rest.length < text.length := by
  have := congrArg List.length (eq_append_of_breakOnChar? h)
  simp at this
  omega

/-- What follows a match is no longer than the text. -/
theorem length_breakOn?_le {mark text before rest : List Char}
    (h : breakOn? mark text = some (before, rest)) : rest.length ≤ text.length := by
  have := congrArg List.length (eq_append_of_breakOn? h)
  simp at this
  omega

/-- Dropping a leading run never lengthens a list. -/
theorem length_dropWhile_le (p : Char → Bool) (cs : List Char) :
    (cs.dropWhile p).length ≤ cs.length :=
  (List.dropWhile_suffix p).length_le

end HtmlMinify.Text
