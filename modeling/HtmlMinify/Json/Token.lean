import HtmlMinify.Text.Scan

/-! # JSON tokens

The pieces of JSON text: marks, words, numbers and strings, with whitespace between them dropped.
Main statement: `length_tokenAt?_le`, a token never leaves more to read.
-/

namespace HtmlMinify.Json

open Text

/-- A piece of JSON text. A string has no value if it escapes half a character. -/
inductive Token where
  | beginObject
  | endObject
  | beginArray
  | endArray
  | colon
  | comma
  | null
  | bool (value : Bool)
  | num (text : String)
  | str (value : Option String)
deriving Repr, DecidableEq, Inhabited

/-- Whitespace between tokens. -/
def isBetween (c : Char) : Bool :=
  c == ' ' || c == '\n' || c == '\t' || c == '\r'

/-! ## Strings -/

/-- Four hexadecimal digits. -/
def hexQuad? : List Char → Option (Nat × List Char)
  | a :: b :: c :: d :: rest => (digits? 16 [a, b, c, d]).map (·, rest)
  | _ => none

/-- First unit of a character that needs two. -/
def isHigh (n : Nat) : Bool :=
  0xd800 ≤ n && n ≤ 0xdbff

/-- Second unit of a character that needs two. -/
def isLow (n : Nat) : Bool :=
  0xdc00 ≤ n && n ≤ 0xdfff

/-- An escaped character given by units of 16 bits, after `\u`. Half a character is none. -/
def unitEscape? (input : List Char) : Option (Option Char × List Char) :=
  match hexQuad? input with
  | none => none
  | some (n, rest) =>
    if isHigh n then
      match rest with
      | '\\' :: 'u' :: more =>
        match hexQuad? more with
        | some (m, after) =>
          if isLow m then
            some (some (Char.ofNat (0x10000 + (n - 0xd800) * 0x400 + (m - 0xdc00))), after)
          else some (none, rest)
        | none => some (none, rest)
      | _ => some (none, rest)
    else if isLow n then some (none, rest)
    else some (some (Char.ofNat n), rest)

/-- The character that a letter escapes. -/
def letterEscape? (c : Char) : Option Char :=
  if c == '\x22' then some '\x22'
  else if c == '\\' then some '\\'
  else if c == '/' then some '/'
  else if c == 'b' then some '\x08'
  else if c == 'f' then some '\x0c'
  else if c == 'n' then some '\n'
  else if c == 'r' then some '\r'
  else if c == 't' then some '\t'
  else none

/-- What follows a backslash. -/
def escape? : List Char → Option (Option Char × List Char)
  | [] => none
  | c :: rest =>
    if c == 'u' then unitEscape? rest else (letterEscape? c).map fun e => (some e, rest)

/-- Four hexadecimal digits are read from the input, so less is left. -/
theorem length_hexQuad?_lt {input rest : List Char} {n : Nat}
    (h : hexQuad? input = some (n, rest)) : rest.length < input.length := by
  unfold hexQuad? at h
  split at h
  · next a b c d after =>
    obtain ⟨m, -, hm⟩ := Option.map_eq_some_iff.1 h
    cases hm
    simp only [List.length_cons]
    omega
  · cases h

/-- An escaped code unit takes some of the input. -/
theorem length_unitEscape?_lt {input rest : List Char} {c : Option Char}
    (h : unitEscape? input = some (c, rest)) : rest.length < input.length := by
  unfold unitEscape? at h
  split at h
  · cases h
  · next n after hq =>
    have hlt := length_hexQuad?_lt hq
    split at h
    · split at h
      · next more =>
        split at h
        · next m final hm =>
          have := length_hexQuad?_lt hm
          split at h
          · cases h
            simp only [List.length_cons] at hlt
            omega
          · cases h
            exact hlt
        · cases h
          exact hlt
      · cases h
        exact hlt
    · split at h <;> (cases h; exact hlt)

/-- An escape takes some of the input. -/
theorem length_escape?_lt {input rest : List Char} {c : Option Char}
    (h : escape? input = some (c, rest)) : rest.length < input.length := by
  cases input with
  | nil => cases h
  | cons d ds =>
    simp only [escape?] at h
    split at h
    · exact Nat.lt_succ_of_lt (length_unitEscape?_lt h)
    · obtain ⟨e, -, he⟩ := Option.map_eq_some_iff.1 h
      cases he
      exact Nat.lt_succ_self _

/-- The characters of a string after its opening quote, and what follows its closing one. -/
def stringBody? (input : List Char) : Option (List (Option Char) × List Char) :=
  match input with
  | [] => none
  | c :: rest =>
    if c == '\x22' then some ([], rest)
    else if c == '\\' then
      match _h : escape? rest with
      | some (e, after) => (stringBody? after).map fun (cs, final) => (e :: cs, final)
      | none => none
    else if c.toNat < 0x20 then none
    else (stringBody? rest).map fun (cs, final) => (some c :: cs, final)
termination_by input.length
decreasing_by
  · have := length_escape?_lt _h
    simp only [List.length_cons]
    omega
  · simp only [List.length_cons]
    omega

/-- The rest of a string takes some of the input: its closing quote at least. -/
theorem length_stringBody?_lt {input rest : List Char} {cs : List (Option Char)}
    (h : stringBody? input = some (cs, rest)) : rest.length < input.length := by
  fun_induction stringBody? input generalizing cs with
  | case1 => cases h
  | case2 c after _ =>
    cases h
    exact Nat.lt_succ_self _
  | case3 c after _ _ e next he ih =>
    obtain ⟨⟨ds, final⟩, hd, heq⟩ := Option.map_eq_some_iff.1 h
    cases heq
    have := ih hd
    have := length_escape?_lt he
    simp only [List.length_cons]
    omega
  | case4 => cases h
  | case5 => cases h
  | case6 c after _ _ _ ih =>
    obtain ⟨⟨ds, final⟩, hd, heq⟩ := Option.map_eq_some_iff.1 h
    cases heq
    exact Nat.lt_succ_of_lt (ih hd)

/-! ## Numbers -/

/-- One digit or more. -/
def digitRun? (input : List Char) : Option (List Char × List Char) :=
  match input.takeWhile Char.isDigit with
  | [] => none
  | d :: ds => some (d :: ds, input.dropWhile Char.isDigit)

/-- The part of a number before its point: no zeros in front. -/
def wholePart? (input : List Char) : Option (List Char × List Char) :=
  match input with
  | '0' :: rest => some (['0'], rest)
  | _ => digitRun? input

/-- A fraction, if there is a point. -/
def fraction? (input : List Char) : Option (List Char × List Char) :=
  match input with
  | '.' :: rest => (digitRun? rest).map fun (ds, after) => ('.' :: ds, after)
  | _ => some ([], input)

/-- A sign, if there is one. -/
def signOf (input : List Char) : List Char × List Char :=
  match input with
  | '+' :: rest => (['+'], rest)
  | '-' :: rest => (['-'], rest)
  | _ => ([], input)

/-- An exponent, if there is a mark of one. -/
def exponent? (input : List Char) : Option (List Char × List Char) :=
  match input with
  | c :: rest =>
    if c == 'e' || c == 'E' then
      (digitRun? (signOf rest).2).map fun (ds, after) => (c :: ((signOf rest).1 ++ ds), after)
    else some ([], input)
  | [] => some ([], input)

/-- A number as written, and what follows it. -/
def number? (input : List Char) : Option (List Char × List Char) := do
  let (minus, unsigned) :=
    match input with
    | '-' :: rest => (['-'], rest)
    | _ => ([], input)
  let (whole, afterWhole) ← wholePart? unsigned
  let (fraction, afterFraction) ← fraction? afterWhole
  let (exponent, rest) ← exponent? afterFraction
  return (minus ++ whole ++ fraction ++ exponent, rest)

/-- A run of digits takes some of the input. -/
theorem length_digitRun?_lt {input ds rest : List Char}
    (h : digitRun? input = some (ds, rest)) : rest.length < input.length := by
  have happ : (input.takeWhile Char.isDigit ++ input.dropWhile Char.isDigit).length =
      input.length := by
    rw [List.takeWhile_append_dropWhile]
  unfold digitRun? at h
  split at h
  · cases h
  · next d more heq =>
    cases h
    rw [heq] at happ
    simp only [List.length_append, List.length_cons] at happ
    omega

/-- The whole part of a number takes some of the input. -/
theorem length_wholePart?_lt {input ds rest : List Char}
    (h : wholePart? input = some (ds, rest)) : rest.length < input.length := by
  unfold wholePart? at h
  split at h
  · cases h
    exact Nat.lt_succ_self _
  · exact length_digitRun?_lt h

/-- A fraction takes nothing back. -/
theorem length_fraction?_le {input ds rest : List Char}
    (h : fraction? input = some (ds, rest)) : rest.length ≤ input.length := by
  unfold fraction? at h
  split at h
  · obtain ⟨⟨more, after⟩, hd, heq⟩ := Option.map_eq_some_iff.1 h
    cases heq
    have := length_digitRun?_lt hd
    simp only [List.length_cons]
    omega
  · cases h
    exact Nat.le_refl _

/-- A sign takes nothing back. -/
theorem length_signOf_le (input : List Char) : (signOf input).2.length ≤ input.length := by
  unfold signOf
  split <;> simp

/-- An exponent takes nothing back. -/
theorem length_exponent?_le {input ds rest : List Char}
    (h : exponent? input = some (ds, rest)) : rest.length ≤ input.length := by
  unfold exponent? at h
  split at h
  · next c after =>
    split at h
    · obtain ⟨⟨more, final⟩, hd, heq⟩ := Option.map_eq_some_iff.1 h
      cases heq
      have := length_digitRun?_lt hd
      have := length_signOf_le after
      simp only [List.length_cons]
      omega
    · cases h
      exact Nat.le_refl _
  · cases h
    exact Nat.le_refl _

/-- A number takes some of the input. -/
theorem length_number?_lt {input text rest : List Char}
    (h : number? input = some (text, rest)) : rest.length < input.length := by
  simp only [number?, Option.bind_eq_bind, Option.bind_eq_some_iff, Option.pure_def,
    Option.some.injEq, Prod.mk.injEq] at h
  obtain ⟨⟨whole, afterWhole⟩, hw, ⟨frac, afterFraction⟩, hf, ⟨exponent, final⟩, he, -, rfl⟩ := h
  have hunsigned : (match input with
      | '-' :: rest => (['-'], rest)
      | _ => ([], input)).2.length ≤ input.length := by
    split <;> simp
  have := length_wholePart?_lt hw
  have := length_fraction?_le hf
  have := length_exponent?_le he
  simp only at *
  omega

/-! ## Tokens -/

/-- Reads a token that begins with `c`. -/
def tokenAt? (c : Char) (rest : List Char) : Option (Token × List Char) :=
  match c with
  | '\x7b' => some (.beginObject, rest)
  | '\x7d' => some (.endObject, rest)
  | '[' => some (.beginArray, rest)
  | ']' => some (.endArray, rest)
  | ':' => some (.colon, rest)
  | ',' => some (.comma, rest)
  | '\x22' =>
    (stringBody? rest).map fun (cs, after) => (.str ((cs.mapM id).map String.ofList), after)
  | 'n' => (['u', 'l', 'l'].isPrefixOf? rest).map (.null, ·)
  | 't' => (['r', 'u', 'e'].isPrefixOf? rest).map (.bool true, ·)
  | 'f' => (['a', 'l', 's', 'e'].isPrefixOf? rest).map (.bool false, ·)
  | _ => (number? (c :: rest)).map fun (text, after) => (.num (String.ofList text), after)

/-- After its first character a token takes nothing back. -/
theorem length_tokenAt?_le {c : Char} {input rest : List Char} {token : Token}
    (h : tokenAt? c input = some (token, rest)) : rest.length ≤ input.length := by
  have hword {word : List Char} {t : Token}
      (hw : (word.isPrefixOf? input).map (t, ·) = some (token, rest)) :
      rest.length ≤ input.length := by
    obtain ⟨after, ha, heq⟩ := Option.map_eq_some_iff.1 hw
    cases heq
    rw [eq_append_of_isPrefixOf? ha, List.length_append]
    omega
  unfold tokenAt? at h
  split at h
  iterate 6 (cases h; exact Nat.le_refl _)
  · obtain ⟨⟨cs, after⟩, hb, heq⟩ := Option.map_eq_some_iff.1 h
    cases heq
    exact Nat.le_of_lt (length_stringBody?_lt hb)
  · exact hword h
  · exact hword h
  · exact hword h
  · obtain ⟨⟨text, after⟩, hn, heq⟩ := Option.map_eq_some_iff.1 h
    cases heq
    exact Nat.le_of_lt_succ (length_number?_lt hn)

/-- All tokens of a text; nothing if some part of it is none. -/
def tokens? (input : List Char) : Option (List Token) :=
  match _h : input.dropWhile isBetween with
  | [] => some []
  | c :: rest =>
    match _ht : tokenAt? c rest with
    | some (token, after) => (tokens? after).map (token :: ·)
    | none => none
termination_by input.length
decreasing_by
  have := length_dropWhile_le isBetween input
  have := length_tokenAt?_le _ht
  simp_all only [List.length_cons]
  omega

end HtmlMinify.Json
