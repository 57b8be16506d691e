import HtmlMinify.Json.Read
import HtmlMinify.Proofs.Scan

/-!
# JSON that was written is read back

A value is written as tokens (`Json.tokens`) with whitespace between some of them. Reading takes the
text apart into these tokens again, whatever the indent, and then puts the value together from them,
with the unfinished lists and objects around it in a stack. Both halves are stated with an arbitrary
rest, so that the induction over a value can go through its parts.

Numbers are kept as they are written, and only whole numbers are ever written: these are the numbers
of `Json.Written`.

## Main statements

* `Json.stringBody?_quoteChars`: every text is read back from its quoted form.
* `Json.digits?_toDigits`: every number is read back from its digits.
* `Json.Written.lexes`: the tokens of a text are those of the value it writes.
* `Json.Written.assembles`: a value is put together from its own tokens.
* `Json.Written.read?_render`: a value is read back from its text.
-/

namespace HtmlMinify.Json

open Text

/-- What undoes a change of each item undoes it in a list. -/
theorem mapM_map_eq_some {α β : Type} {f : α → β} {undo : β → Option α}
    (h : ∀ a, undo (f a) = some a) (items : List α) : (items.map f).mapM undo = some items := by
  induction items with
  | nil => rfl
  | cons a items ih => simp [h, ih]

/-! ## Strings -/

section Strings

variable {cs : List (Option Char)} {rest after final : List Char}

/-- A quote ends a string. -/
theorem stringBody?_quote (rest : List Char) : stringBody? ('\x22' :: rest) = some ([], rest) := by
  rw [stringBody?]
  rfl

/-- A backslash begins an escape, and the string goes on after it. -/
theorem stringBody?_escape {e : Option Char} (hescape : escape? rest = some (e, after))
    (hbody : stringBody? after = some (cs, final)) :
    stringBody? ('\\' :: rest) = some (e :: cs, final) := by
  rw [stringBody?, if_neg (by decide), if_pos (by decide)]
  split
  · next hsome =>
    rw [hescape] at hsome
    cases hsome
    rw [hbody]
    rfl
  · next hnone =>
    rw [hescape] at hnone
    cases hnone

/-- Any other character stands for itself. -/
theorem stringBody?_plain {c : Char} (hquote : c ≠ '\x22') (hslash : c ≠ '\\')
    (hcontrol : ¬ c.toNat < 0x20) (hbody : stringBody? rest = some (cs, final)) :
    stringBody? (c :: rest) = some (some c :: cs, final) := by
  rw [stringBody?, if_neg (by simpa using hquote), if_neg (by simpa using hslash), if_neg hcontrol,
    hbody]
  rfl

/-- A control character is read back from its code. -/
theorem hexQuad?_control {n : Nat} (h : n < 0x20) (rest : List Char) :
    hexQuad? ('0' :: '0' :: hexDigit (n / 16) :: hexDigit (n % 16) :: rest) = some (n, rest) := by
  have hdigits : ∀ n < 0x20,
      digits? 16 ['0', '0', hexDigit (n / 16), hexDigit (n % 16)] = some n := by
    decide
  rw [hexQuad?, hdigits n h]
  rfl

/-- A control character is read back from its code. -/
theorem escape?_control {c : Char} (h : c.toNat < 0x20) (rest : List Char) :
    escape? ('u' :: '0' :: '0' :: hexDigit (c.toNat / 16) :: hexDigit (c.toNat % 16) :: rest) =
      some (some c, rest) := by
  have hhigh : isHigh c.toNat = false := by
    simp only [isHigh, Bool.and_eq_false_iff, decide_eq_false_iff_not]
    omega
  have hlow : isLow c.toNat = false := by
    simp only [isLow, Bool.and_eq_false_iff, decide_eq_false_iff_not]
    omega
  rw [escape?, if_pos (by decide), unitEscape?, hexQuad?_control h]
  simp only [hhigh, hlow, Bool.false_eq_true, if_false, Char.ofNat_toNat]

/-- The forms that a character has in a quoted string: escaped by a letter, by its code, or as
itself. -/
theorem escapeChar_cases (c : Char) :
    (∃ letter, escapeChar c = ['\\', letter] ∧
        ∀ rest, escape? (letter :: rest) = some (some c, rest)) ∨
      (c.toNat < 0x20 ∧ escapeChar c =
        ['\\', 'u', '0', '0', hexDigit (c.toNat / 16), hexDigit (c.toNat % 16)]) ∨
      (c ≠ '\x22' ∧ c ≠ '\\' ∧ ¬ c.toNat < 0x20 ∧ escapeChar c = [c]) := by
  unfold escapeChar
  split
  · next hc =>
    obtain rfl := beq_iff_eq.mp hc
    exact .inl ⟨_, rfl, fun _ => rfl⟩
  · next hquote =>
    split
    · next hc =>
      obtain rfl := beq_iff_eq.mp hc
      exact .inl ⟨_, rfl, fun _ => rfl⟩
    · next hslash =>
      iterate 5
        split
        · next hc =>
          obtain rfl := beq_iff_eq.mp hc
          exact .inl ⟨_, rfl, fun _ => rfl⟩
      split
      · next hcontrol => exact .inr (.inl ⟨hcontrol, rfl⟩)
      · next hcontrol =>
        exact .inr (.inr ⟨by simpa using hquote, by simpa using hslash, hcontrol, rfl⟩)

/-- A character is read back from the form that it has in a quoted string. -/
theorem stringBody?_escapeChar (c : Char) (hbody : stringBody? rest = some (cs, final)) :
    stringBody? (escapeChar c ++ rest) = some (some c :: cs, final) := by
  obtain ⟨letter, hform, hescape⟩ | ⟨hcontrol, hform⟩ | ⟨hquote, hslash, hcontrol, hform⟩ :=
    escapeChar_cases c
  · rw [hform]
    exact stringBody?_escape (hescape rest) hbody
  · rw [hform]
    exact stringBody?_escape (escape?_control hcontrol rest) hbody
  · rw [hform]
    exact stringBody?_plain hquote hslash hcontrol hbody

/-- **Every text is read back from its quoted form.** -/
theorem stringBody?_quoteChars (text rest : List Char) :
    stringBody? (text.flatMap escapeChar ++ '\x22' :: rest) = some (text.map some, rest) := by
  induction text with
  | nil => exact stringBody?_quote rest
  | cons c text ih =>
    rw [List.flatMap_cons, List.append_assoc]
    exact stringBody?_escapeChar c ih

end Strings

/-! ## Whole numbers -/

section Numbers

/-- What can follow a value in a text: nothing, a comma or a new line. -/
def Stops (rest : List Char) : Prop :=
  ∀ c ∈ rest.head?, c = ',' ∨ c = '\n'

theorem stops_nil : Stops [] := by
  intro c hc
  cases hc

theorem stops_comma (rest : List Char) : Stops (',' :: rest) := by
  rintro c ⟨⟩
  exact .inl rfl

/-- A line break stops a number. -/
theorem stops_newLine (level : Nat) (rest : List Char) :
    Stops ((newLine level).toList ++ rest) := by
  rw [newLine, String.toList_ofList]
  rintro c ⟨⟩
  exact .inr rfl

/-- What stops a number is no digit. -/
theorem Stops.not_isDigit {rest : List Char} (h : Stops rest) :
    ∀ c ∈ rest.head?, c.isDigit = false := by
  intro c hc
  rcases h c hc with rfl | rfl <;> rfl

variable {digits rest : List Char}

/-- Digits are read as the whole part of a number, as far as they go. -/
theorem wholePart?_append (hdigits : ∀ c ∈ digits, c.isDigit = true) (hne : digits ≠ [])
    (hzero : digits.head? = some '0' → digits = ['0']) (hrest : Stops rest) :
    wholePart? (digits ++ rest) = some (digits, rest) := by
  unfold wholePart?
  split
  · next more hsplit =>
    cases digits with
    | nil => exact absurd rfl hne
    | cons d digits =>
      obtain ⟨rfl, hmore⟩ := List.cons.inj hsplit
      cases hzero rfl
      rw [← hmore]
      rfl
  · rw [digitRun?, takeWhile_append_stop hdigits hrest.not_isDigit,
      dropWhile_append_stop hdigits hrest.not_isDigit]
    cases digits with
    | nil => exact absurd rfl hne
    | cons d digits => rfl

/-- A number that stops has no fraction. -/
theorem fraction?_of_stops (hrest : Stops rest) : fraction? rest = some ([], rest) := by
  unfold fraction?
  split
  · rcases hrest '.' rfl with h | h <;> cases h
  · rfl

/-- A number that stops has no exponent. -/
theorem exponent?_of_stops (hrest : Stops rest) : exponent? rest = some ([], rest) := by
  cases rest with
  | nil => rfl
  | cons c rest => rcases hrest c rfl with rfl | rfl <;> rfl

/-- A run of digits without a zero in front is one number. -/
theorem number?_append (hdigits : ∀ c ∈ digits, c.isDigit = true) (hne : digits ≠ [])
    (hzero : digits.head? = some '0' → digits = ['0']) (hrest : Stops rest) :
    number? (digits ++ rest) = some (digits, rest) := by
  have hwhole := wholePart?_append hdigits hne hzero hrest
  unfold number?
  split
  next minus unsigned hsign =>
    split at hsign
    · next more hsplit =>
      -- a sign is no digit
      cases digits with
      | nil => exact absurd rfl hne
      | cons d digits =>
        obtain ⟨rfl, -⟩ := List.cons.inj hsplit
        exact absurd (hdigits '-' List.mem_cons_self) (by decide)
    · cases hsign
      simp [hwhole, fraction?_of_stops hrest, exponent?_of_stops hrest]

/-- The digits of a positive number do not begin with a zero. -/
theorem head?_toDigits_ne {n : Nat} (h : 0 < n) : (Nat.toDigits 10 n).head? ≠ some '0' := by
  have hdigit : ∀ d < 10, 0 < d → d.digitChar ≠ '0' := by decide
  induction n using Nat.strongRecOn with
  | ind n ih =>
    rw [Nat.toDigits_eq_if (by decide)]
    split
    · next hless => simpa using hdigit n hless h
    · next hmore =>
      rw [List.head?_append_of_ne_nil _ Nat.toDigits_ne_nil]
      exact ih (n / 10) (by omega) (by omega)

/-- Digits in two parts are read one part after the other. -/
theorem digitsFrom?_append (radix high : Nat) (cs ds : List Char) :
    digitsFrom? radix high (cs ++ ds) =
      (digitsFrom? radix high cs).bind (digitsFrom? radix · ds) := by
  induction cs generalizing high with
  | nil => rfl
  | cons c cs ih =>
    rw [List.cons_append, digitsFrom?, digitsFrom?]
    cases hexValue? c with
    | none => rfl
    | some d =>
      dsimp only
      split
      · exact ih _
      · rfl

/-- **A number is read back from its decimal digits.** -/
theorem digits?_toDigits (n : Nat) : digits? 10 (Nat.toDigits 10 n) = some n := by
  have hdigit : ∀ d < 10, ∀ high, digitsFrom? 10 high [d.digitChar] = some (high * 10 + d) := by
    intro d hd high
    have hvalue : ∀ d < 10, hexValue? d.digitChar = some d := by decide
    rw [digitsFrom?, hvalue d hd]
    simp only [if_pos hd]
    rfl
  induction n using Nat.strongRecOn with
  | ind n ih =>
    rw [Nat.toDigits_eq_if (by decide)]
    split
    · next hless => rw [digits?, hdigit n hless, Nat.zero_mul, Nat.zero_add]
    · next hmore =>
      have hhigh : digitsFrom? 10 0 (Nat.toDigits 10 (n / 10)) = some (n / 10) := ih _ (by omega)
      rw [digits?, digitsFrom?_append, hhigh, Option.bind_some,
        hdigit _ (Nat.mod_lt n (by decide)), Nat.div_add_mod']

/-- A number is written by its digits. -/
theorem toList_toString (n : Nat) : (toString n).toList = Nat.toDigits 10 n := by
  rw [Nat.toString_eq_repr, Nat.toList_repr]

/-- A number that is written is read as far as it was written. -/
theorem number?_toString (n : Nat) (hrest : Stops rest) :
    number? ((toString n).toList ++ rest) = some ((toString n).toList, rest) := by
  rw [toList_toString]
  refine number?_append (fun c hc => Nat.isDigit_of_mem_toDigits (by decide) (by decide) hc)
    Nat.toDigits_ne_nil (fun hhead => ?_) hrest
  rcases Nat.eq_zero_or_pos n with rfl | hpos
  · rfl
  · exact absurd hhead (head?_toDigits_ne hpos)

end Numbers

/-! ## Tokens of a text -/

section Tokens

variable {input rest after : List Char}

/-- After whitespace a token is read, and the others follow. -/
theorem tokens?_of_token {c : Char} {token : Token} (hdrop : input.dropWhile isBetween = c :: rest)
    (htoken : tokenAt? c rest = some (token, after)) :
    tokens? input = (tokens? after).map (token :: ·) := by
  rw [tokens?]
  split
  · next hnil =>
    rw [hdrop] at hnil
    cases hnil
  · next hcons =>
    rw [hdrop] at hcons
    cases hcons
    split
    · next hsome =>
      rw [htoken] at hsome
      cases hsome
      rfl
    · next hnone =>
      rw [htoken] at hnone
      cases hnone

/-- Nothing is read from whitespace. -/
theorem tokens?_of_blank (hdrop : input.dropWhile isBetween = []) : tokens? input = some [] := by
  rw [tokens?]
  split
  · rfl
  · next hcons =>
    rw [hdrop] at hcons
    cases hcons

/-- What begins no token is refused. -/
theorem tokens?_of_none {c : Char} (hdrop : input.dropWhile isBetween = c :: rest)
    (htoken : tokenAt? c rest = none) : tokens? input = none := by
  rw [tokens?]
  split
  · next hnil =>
    rw [hdrop] at hnil
    cases hnil
  · next hcons =>
    rw [hdrop] at hcons
    cases hcons
    split
    · next hsome =>
      rw [htoken] at hsome
      cases hsome
    · rfl

/-- Whitespace in front does not count. -/
theorem tokens?_between {c : Char} (h : isBetween c = true) (rest : List Char) :
    tokens? (c :: rest) = tokens? rest := by
  have hsame : (c :: rest).dropWhile isBetween = rest.dropWhile isBetween := by
    rw [List.dropWhile_cons, if_pos h]
  cases hdrop : rest.dropWhile isBetween with
  | nil => rw [tokens?_of_blank hdrop, tokens?_of_blank (hsame.trans hdrop)]
  | cons d more =>
    cases htoken : tokenAt? d more with
    | none => rw [tokens?_of_none hdrop htoken, tokens?_of_none (hsame.trans hdrop) htoken]
    | some result =>
      rw [tokens?_of_token hdrop htoken, tokens?_of_token (hsame.trans hdrop) htoken]

/-- A token that does not begin with whitespace is the first of its text. -/
theorem tokens?_cons {c : Char} {token : Token} (hc : isBetween c = false)
    (htoken : tokenAt? c rest = some (token, after)) :
    tokens? (c :: rest) = (tokens? after).map (token :: ·) :=
  tokens?_of_token (by rw [List.dropWhile_cons, hc]; rfl) htoken

/-- In front of `rest` the text gives the tokens `ts`. -/
def Yields (text : List Char) (ts : List Token) (rest : List Char) : Prop :=
  tokens? (text ++ rest) = (tokens? rest).map (ts ++ ·)

theorem yields_nil (rest : List Char) : Yields [] [] rest := by
  simp [Yields]

/-- One text after the other. -/
theorem Yields.append {text text' : List Char} {ts ts' : List Token}
    (h : Yields text ts (text' ++ rest)) (h' : Yields text' ts' rest) :
    Yields (text ++ text') (ts ++ ts') rest := by
  rw [Yields, List.append_assoc, h, h', Option.map_map]
  congr 1
  funext more
  exact (List.append_assoc ts ts' more).symm

/-- A token of one character, in front of a text. -/
theorem Yields.mark {c : Char} {token : Token} {text : List Char} {ts : List Token}
    (h : Yields text ts rest) (hc : isBetween c = false)
    (htoken : ∀ rest, tokenAt? c rest = some (token, rest)) :
    Yields (c :: text) (token :: ts) rest := by
  rw [Yields, List.cons_append, tokens?_cons hc (htoken _), h, Option.map_map]
  rfl

/-- A token of a word. -/
theorem yields_word {c : Char} {word : List Char} {token : Token} (hc : isBetween c = false)
    (htoken : ∀ rest, tokenAt? c rest = (word.isPrefixOf? rest).map (token, ·)) (rest : List Char) :
    Yields (c :: word) [token] rest := by
  have hword : tokenAt? c (word ++ rest) = some (token, rest) := by
    rw [htoken, isPrefixOf?_append]
    rfl
  exact tokens?_cons hc hword

/-- Whitespace in front of a text. -/
theorem Yields.between {c : Char} {text : List Char} {ts : List Token} (h : Yields text ts rest)
    (hc : isBetween c = true) : Yields (c :: text) ts rest :=
  (tokens?_between hc (text ++ rest)).trans h

/-- A line break in front of a text yields no token. -/
theorem Yields.newLine {text : List Char} {ts : List Token} (h : Yields text ts rest)
    (level : Nat) : Yields ((newLine level).toList ++ text) ts rest := by
  have hblanks : ∀ n, Yields (List.replicate n ' ' ++ text) ts rest := by
    intro n
    induction n with
    | zero => exact h
    | succ n ih => exact ih.between rfl
  rw [Json.newLine, String.toList_ofList]
  exact (hblanks (2 * level)).between rfl

/-- A string that is quoted yields the string. -/
theorem yields_quote (value : String) (rest : List Char) :
    Yields (quote value).toList [.str (some value)] rest := by
  have hbody := stringBody?_quoteChars value.toList rest
  have hvalue : (value.toList.map some).mapM id = some value.toList :=
    @mapM_map_eq_some Char (Option Char) some id (fun _ => rfl) value.toList
  rw [Yields, quote, String.toList_ofList, quoteChars, List.cons_append, List.append_assoc]
  refine tokens?_cons rfl ?_
  rw [tokenAt?, List.singleton_append, hbody]
  simp only [Option.map_some, hvalue, String.ofList_toList]

/-- A token that begins with a digit is a number. -/
theorem tokenAt?_of_isDigit {c : Char} {text : List Char} (hc : c.isDigit = true)
    (hnumber : number? (c :: rest) = some (text, after)) :
    tokenAt? c rest = some (.num (String.ofList text), after) := by
  unfold tokenAt?
  split
  iterate 10 exact absurd hc (by decide)
  rw [hnumber]
  rfl

/-- A number that is written yields its digits. -/
theorem yields_toString (n : Nat) (hrest : Stops rest) :
    Yields (toString n).toList [.num (toString n)] rest := by
  have hnumber := number?_toString n hrest
  cases hdigits : (toString n).toList with
  | nil => exact absurd ((toList_toString n).symm.trans hdigits) Nat.toDigits_ne_nil
  | cons c digits =>
    rw [hdigits, List.cons_append] at hnumber
    have hc : c.isDigit = true := by
      refine @Nat.isDigit_of_mem_toDigits 10 n c (by decide) (by decide) ?_
      rw [← toList_toString, hdigits]
      exact List.mem_cons_self
    have hbetween : isBetween c = false := by
      rw [Bool.eq_false_iff]
      intro h
      simp only [isBetween, Bool.or_eq_true, beq_iff_eq] at h
      rcases h with ((rfl | rfl) | rfl) | rfl <;> exact absurd hc (by decide)
    rw [Yields, List.cons_append, tokens?_cons hbetween (tokenAt?_of_isDigit hc hnumber), ← hdigits,
      String.ofList_toList]
    rfl

end Tokens

/-! ## Tokens of a value -/

mutual

/-- The tokens that write a value. -/
def tokens : Json → List Token
  | null | illFormed => [.null]
  | bool value => [.bool value]
  | num text => [.num text]
  | str value => [.str (some value)]
  | arr [] => [.beginArray, .endArray]
  | arr (item :: items) => .beginArray :: (item.tokens ++ (itemTokens items ++ [.endArray]))
  | obj [] => [.beginObject, .endObject]
  | obj (field :: fields) =>
    .beginObject :: (fieldTokens field ++ (moreFieldTokens fields ++ [.endObject]))

/-- The tokens of the items after the first, each after a comma. -/
def itemTokens : List Json → List Token
  | [] => []
  | item :: items => .comma :: (item.tokens ++ itemTokens items)

/-- The tokens of a key and its value. -/
def fieldTokens : String × Json → List Token
  | (key, value) => .str (some key) :: .colon :: value.tokens

/-- The tokens of the fields after the first, each after a comma. -/
def moreFieldTokens : List (String × Json) → List Token
  | [] => []
  | field :: fields => .comma :: (fieldTokens field ++ moreFieldTokens fields)

end

/-- Values whose text gives them back: numbers are whole and as they are written, and nothing is
ill-formed. -/
inductive Written : Json → Prop where
  | null : Written null
  | bool (value : Bool) : Written (bool value)
  | ofNat (n : Nat) : Written (ofNat n)
  | str (value : String) : Written (str value)
  | arr {items : List Json} (h : ∀ item ∈ items, Written item) : Written (arr items)
  | obj {fields : List (String × Json)} (h : ∀ field ∈ fields, Written field.2) :
    Written (obj fields)

/-- The text of the value, at any indent, gives the tokens of the value. -/
def Lexes (value : Json) : Prop :=
  ∀ level rest, Stops rest → Yields (value.pretty level).toList value.tokens rest

section Pretty

variable {rest : List Char}

/-- Each further item comes after a comma, on a line of its own. -/
theorem toList_prettyItems_cons (level : Nat) (item : Json) (items : List Json) :
    (prettyItems level (item :: items)).toList = ',' :: ((newLine level).toList ++
      ((item.pretty level).toList ++ (prettyItems level items).toList)) := by
  rw [prettyItems]
  simp only [String.toList_append, List.append_assoc]
  rfl

/-- So does each further field. -/
theorem toList_prettyFields_cons (level : Nat) (field : String × Json)
    (fields : List (String × Json)) :
    (prettyFields level (field :: fields)).toList = ',' :: ((newLine level).toList ++
      ((prettyField level field).toList ++ (prettyFields level fields).toList)) := by
  rw [prettyFields]
  simp only [String.toList_append, List.append_assoc]
  rfl

/-- The items of an array stand in brackets, each on a line of its own. -/
theorem toList_pretty_arr_cons (level : Nat) (item : Json) (items : List Json) :
    ((arr (item :: items)).pretty level).toList = '[' :: ((newLine (level + 1)).toList ++
      ((item.pretty (level + 1)).toList ++ ((prettyItems (level + 1) items).toList ++
        ((newLine level).toList ++ [']'])))) := by
  rw [pretty]
  simp only [String.toList_append, List.append_assoc]
  rfl

/-- The fields of an object stand in braces, each on a line of its own. -/
theorem toList_pretty_obj_cons (level : Nat) (field : String × Json)
    (fields : List (String × Json)) :
    ((obj (field :: fields)).pretty level).toList = '\x7b' :: ((newLine (level + 1)).toList ++
      ((prettyField (level + 1) field).toList ++ ((prettyFields (level + 1) fields).toList ++
        ((newLine level).toList ++ ['\x7d'])))) := by
  rw [pretty]
  simp only [String.toList_append, List.append_assoc]
  rfl

/-- Further items stop a number. -/
theorem stops_prettyItems (level : Nat) (items : List Json) (hrest : Stops rest) :
    Stops ((prettyItems level items).toList ++ rest) := by
  cases items with
  | nil => exact hrest
  | cons item items =>
    rw [toList_prettyItems_cons]
    exact stops_comma _

/-- Further fields stop a number. -/
theorem stops_prettyFields (level : Nat) (fields : List (String × Json)) (hrest : Stops rest) :
    Stops ((prettyFields level fields).toList ++ rest) := by
  cases fields with
  | nil => exact hrest
  | cons field fields =>
    rw [toList_prettyFields_cons]
    exact stops_comma _

/-- The text of further items yields their tokens, with a comma before each. -/
theorem yields_prettyItems {items : List Json} (h : ∀ item ∈ items, item.Lexes) (level : Nat)
    (hrest : Stops rest) : Yields (prettyItems level items).toList (itemTokens items) rest := by
  induction items with
  | nil => exact yields_nil rest
  | cons item items ih =>
    have hitem := h item List.mem_cons_self level _ (stops_prettyItems level items hrest)
    have hitems := ih fun other hmem => h other (List.mem_cons_of_mem item hmem)
    rw [toList_prettyItems_cons, itemTokens]
    exact ((hitem.append hitems).newLine level).mark rfl fun _ => rfl

/-- The text of a field yields its key, a colon and the tokens of its value. -/
theorem yields_prettyField {field : String × Json} (h : field.2.Lexes) (level : Nat)
    (hrest : Stops rest) : Yields (prettyField level field).toList (fieldTokens field) rest := by
  obtain ⟨key, value⟩ := field
  have hvalue : Yields (':' :: ' ' :: (value.pretty level).toList) (.colon :: value.tokens) rest :=
    ((h level rest hrest).between rfl).mark rfl fun _ => rfl
  have htext : (prettyField level (key, value)).toList =
      (quote key).toList ++ ':' :: ' ' :: (value.pretty level).toList := by
    rw [prettyField]
    simp only [String.toList_append, List.append_assoc]
    rfl
  rw [htext, fieldTokens]
  exact (yields_quote key _).append hvalue

/-- The text of further fields yields their tokens, with a comma before each. -/
theorem yields_prettyFields {fields : List (String × Json)} (h : ∀ field ∈ fields, field.2.Lexes)
    (level : Nat) (hrest : Stops rest) :
    Yields (prettyFields level fields).toList (moreFieldTokens fields) rest := by
  induction fields with
  | nil => exact yields_nil rest
  | cons field fields ih =>
    have hfield := yields_prettyField (h field List.mem_cons_self) level
      (stops_prettyFields level fields hrest)
    have hfields := ih fun other hmem => h other (List.mem_cons_of_mem field hmem)
    rw [toList_prettyFields_cons, moreFieldTokens]
    exact ((hfield.append hfields).newLine level).mark rfl fun _ => rfl

/-- A closing mark on a line of its own. -/
theorem yields_closing {c : Char} {token : Token} (hc : isBetween c = false)
    (htoken : ∀ rest, tokenAt? c rest = some (token, rest)) (level : Nat) (rest : List Char) :
    Yields ((newLine level).toList ++ [c]) [token] rest :=
  ((yields_nil rest).mark hc htoken).newLine level

/-- **The text of an array yields its tokens**, if those of its items do. -/
theorem lexes_arr {items : List Json} (h : ∀ item ∈ items, item.Lexes) : (arr items).Lexes := by
  intro level rest _
  cases items with
  | nil =>
    have hend : Yields [']'] [.endArray] rest := (yields_nil rest).mark rfl fun _ => rfl
    rw [pretty, tokens]
    exact hend.mark rfl fun _ => rfl
  | cons item items =>
    have hend : Stops ((newLine level).toList ++ [']'] ++ rest) := by
      rw [List.append_assoc]
      exact stops_newLine level _
    have hitems := (yields_prettyItems (fun other hmem => h other (List.mem_cons_of_mem item hmem))
      (level + 1) hend).append (yields_closing rfl (fun _ => rfl) level rest)
    have hitem := h item List.mem_cons_self (level + 1) _
      (stops_prettyItems (level + 1) items hend)
    rw [← List.append_assoc] at hitem
    rw [toList_pretty_arr_cons, tokens]
    exact ((hitem.append hitems).newLine (level + 1)).mark rfl fun _ => rfl

/-- **The text of an object yields its tokens**, if those of its fields do. -/
theorem lexes_obj {fields : List (String × Json)} (h : ∀ field ∈ fields, field.2.Lexes) :
    (obj fields).Lexes := by
  intro level rest _
  cases fields with
  | nil =>
    have hend : Yields ['\x7d'] [.endObject] rest := (yields_nil rest).mark rfl fun _ => rfl
    rw [pretty, tokens]
    exact hend.mark rfl fun _ => rfl
  | cons field fields =>
    have hend : Stops ((newLine level).toList ++ ['\x7d'] ++ rest) := by
      rw [List.append_assoc]
      exact stops_newLine level _
    have hfields := (yields_prettyFields
      (fun other hmem => h other (List.mem_cons_of_mem field hmem)) (level + 1) hend).append
      (yields_closing rfl (fun _ => rfl) level rest)
    have hfield := yields_prettyField (h field List.mem_cons_self) (level + 1)
      (stops_prettyFields (level + 1) fields hend)
    rw [← List.append_assoc] at hfield
    rw [toList_pretty_obj_cons, tokens]
    exact ((hfield.append hfields).newLine (level + 1)).mark rfl fun _ => rfl

end Pretty

/-- **The tokens of a text are those of the value it writes.** -/
theorem Written.lexes {value : Json} (h : value.Written) : value.Lexes := by
  induction h with
  | null =>
    intro level rest _
    rw [pretty, tokens]
    exact @yields_word 'n' ['u', 'l', 'l'] .null rfl (fun _ => rfl) rest
  | bool value =>
    intro level rest _
    cases value with
    | false =>
      rw [pretty, tokens]
      exact @yields_word 'f' ['a', 'l', 's', 'e'] (.bool false) rfl (fun _ => rfl) rest
    | true =>
      rw [pretty, tokens]
      exact @yields_word 't' ['r', 'u', 'e'] (.bool true) rfl (fun _ => rfl) rest
  | ofNat n =>
    intro level rest hrest
    rw [Json.ofNat, pretty, tokens]
    exact yields_toString n hrest
  | str value =>
    intro level rest _
    rw [pretty, tokens]
    exact yields_quote value rest
  | arr _ ih => exact lexes_arr ih
  | obj _ ih => exact lexes_obj ih

/-! ## Values from tokens -/

/-- The value is put together from its own tokens, whatever is unfinished around it. -/
def Assembles (value : Json) : Prop :=
  ∀ outer rest, value? outer (value.tokens ++ rest) = after? outer value rest

section Assembling

variable {outer : List Unfinished} {rest : List Token}

/-- No value begins with the end of a list. -/
theorem tokens_append_ne_endArray (value : Json) (rest more : List Token) :
    value.tokens ++ rest ≠ .endArray :: more := by
  intro h
  cases value with
  | arr items => cases items <;> cases h
  | obj fields => cases fields <;> cases h
  | _ => cases h

/-- A value that no colon follows is not read as a key. -/
theorem tokens_append_ne_key (value : Json) (hrest : rest.head? ≠ some .colon)
    (key : Option String) (more : List Token) :
    value.tokens ++ rest ≠ .str key :: .colon :: more := by
  intro h
  cases value with
  | arr items => cases items <;> cases h
  | obj fields => cases fields <;> cases h
  | str text =>
    cases h
    exact hrest rfl
  | _ => cases h

/-- No colon follows the items of an array. -/
theorem head?_itemTokens_ne (items : List Json) (rest : List Token) :
    (itemTokens items ++ .endArray :: rest).head? ≠ some .colon := by
  cases items <;> exact nofun

/-- The items after the first end with their list. -/
theorem after?_itemTokens {items : List Json} (h : ∀ item ∈ items, item.Assembles)
    (earlier : List Json) (value : Json) :
    after? (.arr earlier :: outer) value (itemTokens items ++ .endArray :: rest) =
      after? outer (.arr (earlier.reverse ++ value :: items)) rest := by
  induction items generalizing earlier value with
  | nil =>
    rw [itemTokens, List.nil_append, after?, List.reverse_cons]
  | cons item items ih =>
    have hkey := tokens_append_ne_key item (head?_itemTokens_ne items rest)
    rw [itemTokens, List.cons_append, List.append_assoc, after?]
    · rw [h item List.mem_cons_self,
        ih (fun other hmem => h other (List.mem_cons_of_mem item hmem)), List.reverse_cons,
        List.append_assoc]
      rfl
    · exact hkey

/-- A field as it is held while its object is unfinished. -/
def keyed (field : String × Json) : Option String × Json :=
  (some field.1, field.2)

/-- Fields that were collected, last first, make up the object. -/
theorem object_keyed (fields : List (String × Json)) :
    object (fields.map keyed).reverse = .obj fields := by
  rw [object, List.reverse_reverse, mapM_map_eq_some]
  exact fun _ => rfl

/-- The fields after the first end with their object. -/
theorem after?_moreFieldTokens {fields : List (String × Json)}
    (h : ∀ field ∈ fields, field.2.Assembles) (earlier : List (String × Json)) (key : String)
    (value : Json) :
    after? (.obj (earlier.map keyed).reverse (some key) :: outer) value
        (moreFieldTokens fields ++ .endObject :: rest) =
      after? outer (.obj (earlier ++ (key, value) :: fields)) rest := by
  have hnext (earlier : List (String × Json)) (key : String) (value : Json) :
      (some key, value) :: (earlier.map keyed).reverse =
        ((earlier ++ [(key, value)]).map keyed).reverse := by
    simp [keyed]
  induction fields generalizing earlier key value with
  | nil =>
    rw [moreFieldTokens, List.nil_append, after?, hnext, object_keyed]
  | cons field fields ih =>
    obtain ⟨nextKey, nextValue⟩ := field
    rw [moreFieldTokens, fieldTokens, List.cons_append, List.append_assoc, List.cons_append,
      List.cons_append, after?, hnext, h _ List.mem_cons_self,
      ih fun other hmem => h other (List.mem_cons_of_mem _ hmem), List.append_assoc]
    rfl

/-- **The tokens of an array make up the array**, if those of its items do. -/
theorem assembles_arr {items : List Json} (h : ∀ item ∈ items, item.Assembles) :
    (arr items).Assembles := by
  intro outer rest
  cases items with
  | nil => rw [tokens]; rfl
  | cons item items =>
    have hitem := h item List.mem_cons_self
    rw [tokens, List.cons_append, List.append_assoc, List.append_assoc, value?]
    · rw [hitem, List.singleton_append,
        after?_itemTokens fun other hmem => h other (List.mem_cons_of_mem item hmem)]
      rfl
    · exact tokens_append_ne_endArray item _

/-- **The tokens of an object make up the object**, if those of its fields do. -/
theorem assembles_obj {fields : List (String × Json)} (h : ∀ field ∈ fields, field.2.Assembles) :
    (obj fields).Assembles := by
  intro outer rest
  cases fields with
  | nil => rw [tokens]; rfl
  | cons field fields =>
    obtain ⟨key, value⟩ := field
    have hfields := @after?_moreFieldTokens outer rest fields
      (fun other hmem => h other (List.mem_cons_of_mem _ hmem)) [] key value
    rw [tokens, fieldTokens, List.cons_append, List.append_assoc, List.append_assoc,
      List.cons_append, List.cons_append, value?, h _ List.mem_cons_self]
    exact hfields

end Assembling

/-- **A value is put together from its own tokens.** -/
theorem Written.assembles {value : Json} (h : value.Written) : value.Assembles := by
  induction h with
  | arr _ ih => exact assembles_arr ih
  | obj _ ih => exact assembles_obj ih
  | _ =>
    intro outer rest
    rfl

/-- **A value is read back from its text.** -/
theorem Written.read?_render {value : Json} (h : value.Written) :
    read? value.render = some value := by
  have htokens : tokens? value.render.toList = some value.tokens := by
    have hyields := h.lexes 0 [] stops_nil
    have hend : tokens? [] = some [] := tokens?_of_blank rfl
    rw [Yields, List.append_nil, hend, Option.map_some, List.append_nil] at hyields
    exact hyields
  have hvalue := h.assembles [] []
  rw [List.append_nil] at hvalue
  rw [read?, htokens, Option.bind_some, hvalue]
  rfl

end HtmlMinify.Json
