import HtmlMinify.Attribute
import HtmlMinify.Text.Scan
import HtmlMinify.Text.Space

/-! # Tokens

Markup is a sequence of tags, texts, comments and declarations. Any text can be read: markup that is
never finished is a text, or a comment that runs to the end.

`Token.next?` reads one token. It is given the tag of an element whose raw text begins here, if
there is one. Main statement: `Token.length_next?_lt`, the unread part gets shorter with every
token, so that reading ends.
-/

namespace HtmlMinify

open Text

/-- A start tag: name and attributes as written, and whether it ends in `/>`. -/
structure StartTag where
  name : String
  attributes : Attributes
  selfClosing : Bool
deriving Repr, DecidableEq, Inhabited

/-- A piece of markup. -/
inductive Token where
  | doctype (value : String)
  | startTag (tag : StartTag)
  | endTag (name : String)
  | text (value : String)
  | comment (value : String)
  | cdata (value : String)
  | instruction (value : String)
deriving Repr, DecidableEq, Inhabited

/-- Characters that end a tag name: whitespace, `/` and `>`. -/
def endsName (c : Char) : Bool :=
  isSpace c || c == '/' || c == '>'

/-! ## Start tags -/

namespace StartTag

/-- Characters that may follow the first one in an attribute name. -/
def inAttributeName (c : Char) : Bool :=
  !endsName c && c != '='

/-- Characters of a value without quotes. -/
def inBareValue (c : Char) : Bool :=
  !isSpace c && c != '>'

/-- Reads an attribute value after `=`: in quotes, or up to whitespace or `>`. -/
def readValue? (input : List Char) : Option (String × List Char) :=
  match input.dropWhile isSpace with
  | [] => none
  | c :: rest =>
    if c == '\x22' || c == '\x27' then
      match breakOnChar? c rest with
      | some (value, after) => some (String.ofList value, after)
      | none => none
    else
      some (String.ofList ((c :: rest).takeWhile inBareValue), (c :: rest).dropWhile inBareValue)

/-- Reads an attribute whose name begins with `first`. -/
def readAttribute? (first : Char) (input : List Char) : Option (Attribute × List Char) :=
  let name := String.ofList (first :: input.takeWhile inAttributeName)
  let after := input.dropWhile inAttributeName
  match after.dropWhile isSpace with
  | '=' :: rest =>
    match readValue? rest with
    | some (value, unread) => some (⟨name, some value⟩, unread)
    | none => none
  | _ => some (⟨name, none⟩, after)

/-- The value of an attribute takes nothing back. -/
theorem length_readValue?_le {input rest : List Char} {value : String}
    (h : readValue? input = some (value, rest)) : rest.length ≤ input.length := by
  have hskip := length_dropWhile_le isSpace input
  unfold readValue? at h
  split at h
  · cases h
  · next c cs heq =>
    rw [heq] at hskip
    split at h
    · split at h
      · next v after hb =>
        cases h
        have := length_breakOnChar?_lt hb
        simp only [List.length_cons] at hskip
        omega
      · cases h
    · cases h
      have := length_dropWhile_le inBareValue (c :: cs)
      omega

/-- An attribute takes nothing back after its first character. -/
theorem length_readAttribute?_le {first : Char} {input rest : List Char} {a : Attribute}
    (h : readAttribute? first input = some (a, rest)) : rest.length ≤ input.length := by
  have hname := length_dropWhile_le inAttributeName input
  have hskip := length_dropWhile_le isSpace (input.dropWhile inAttributeName)
  unfold readAttribute? at h
  simp only at h
  split at h
  · next cs heq =>
    rw [heq] at hskip
    split at h
    · next v unread hv =>
      cases h
      have := length_readValue?_le hv
      simp only [List.length_cons] at hskip
      omega
    · cases h
  · cases h
    exact hname

/-- Reads attributes up to the end of the tag: those found before and these, the last one first, and
whether the tag ends in `/>`. Nothing if the tag never ends. -/
def readAttributes? (found : List Attribute) (input : List Char) :
    Option (List Attribute × Bool × List Char) :=
  match _h : input.dropWhile isSpace with
  | [] => none
  | '>' :: rest => some (found, false, rest)
  | '/' :: '>' :: rest => some (found, true, rest)
  | '/' :: rest => readAttributes? found rest
  | c :: rest =>
    match _ha : readAttribute? c rest with
    | some (a, unread) => readAttributes? (a :: found) unread
    | none => none
termination_by input.length
decreasing_by
  · have := length_dropWhile_le isSpace input
    rw [_h] at this
    simp only [List.length_cons] at this
    omega
  · have := length_dropWhile_le isSpace input
    have := length_readAttribute?_le _ha
    simp_all only [List.length_cons]
    omega

/-- The attributes of a tag take nothing back. -/
theorem length_readAttributes?_le {found as : List Attribute} {input rest : List Char}
    {selfClosing : Bool} (h : readAttributes? found input = some (as, selfClosing, rest)) :
    rest.length ≤ input.length := by
  fun_induction readAttributes? found input with
  | case1 => cases h
  | case2 found input after heq =>
    cases h
    have := length_dropWhile_le isSpace input
    simp_all only [List.length_cons]
    omega
  | case3 found input after heq =>
    cases h
    have := length_dropWhile_le isSpace input
    simp_all only [List.length_cons]
    omega
  | case4 found input after heq _ ih =>
    have := ih h
    have := length_dropWhile_le isSpace input
    simp_all only [List.length_cons]
    omega
  | case5 found input c after _ _ _ heq a unread ha ih =>
    have := ih h
    have := length_readAttribute?_le ha
    have := length_dropWhile_le isSpace input
    simp_all only [List.length_cons]
    omega
  | case6 => simp_all

/-- Reads a start tag from its name on; of attributes with equal keys the first stays. Nothing if
the tag never ends. -/
def read? (input : List Char) : Option (StartTag × List Char) :=
  match readAttributes? [] (input.dropWhile (!endsName ·)) with
  | some (found, selfClosing, rest) =>
    let name := String.ofList (input.takeWhile (!endsName ·))
    some (⟨name, Attributes.ofList found.reverse, selfClosing⟩, rest)
  | none => none

/-- A start tag takes nothing back. -/
theorem length_read?_le {input rest : List Char} {tag : StartTag}
    (h : read? input = some (tag, rest)) : rest.length ≤ input.length := by
  unfold read? at h
  split at h
  · next as s r hr =>
    cases h
    have := length_readAttributes?_le hr
    have := length_dropWhile_le (!endsName ·) input
    omega
  · cases h

end StartTag

/-! ## Other tokens -/

namespace Token

/-- Characters as a text token. -/
def ofText (cs : List Char) : Token :=
  .text (String.ofList cs)

/-- A comment up to `>`, or to the end. -/
def bogusComment (body : List Char) : Token × List Char :=
  match breakOnChar? '>' body with
  | some (value, rest) => (.comment (String.ofList value), rest)
  | none => (.comment (String.ofList body), [])

/-- A comment after its opening; one can be closed by `>` or `->` at once. -/
def properComment (body : List Char) : Token × List Char :=
  match body with
  | '>' :: rest => (.comment "", rest)
  | '-' :: '>' :: rest => (.comment "", rest)
  | _ =>
    match breakOn? ['-', '-', '>'] body with
    | some (value, rest) => (.comment (String.ofList value), rest)
    | none => (.comment (String.ofList body), [])

/-- What `<!` begins. -/
def declaration (body : List Char) : Token × List Char :=
  match ['-', '-'].isPrefixOf? body with
  | some inner => properComment inner
  | none =>
    match afterIgnoringCase? "doctype".toList body with
    | some _ =>
      match breakOnChar? '>' body with
      | some (value, rest) => (.doctype (String.ofList value), rest)
      | none => (ofText ('<' :: '!' :: body), [])
    | none =>
      match "[CDATA[".toList.isPrefixOf? body with
      | some inner =>
        match breakOn? [']', ']', '>'] inner with
        | some (value, rest) => (.cdata (String.ofList value), rest)
        | none => (.cdata (String.ofList inner), [])
      | none => bogusComment body

/-- What `</` begins. -/
def closing (body : List Char) : Token × List Char :=
  match body with
  | [] => (ofText ['<', '/'], [])
  | c :: _ =>
    if c.isAlpha then
      match breakOnChar? '>' (body.dropWhile (!endsName ·)) with
      | some (_, rest) => (.endTag (String.ofList (body.takeWhile (!endsName ·))), rest)
      | none => (ofText ('<' :: '/' :: body), [])
    else bogusComment body

/-- What `<` begins. One that begins nothing is text. -/
def afterAngle (input : List Char) : Token × List Char :=
  match input with
  | '!' :: body => declaration body
  | '?' :: body =>
    match breakOnChar? '>' body with
    | some (value, rest) => (.instruction (String.ofList value), rest)
    | none => (ofText ('<' :: input), [])
  | '/' :: body => closing body
  | c :: _ =>
    if c.isAlpha then
      match StartTag.read? input with
      | some (tag, rest) => (.startTag tag, rest)
      | none => (ofText ('<' :: input), [])
    else (ofText ('<' :: input.takeWhile (· != '<')), input.dropWhile (· != '<'))
  | [] => (ofText ['<'], [])

/-- End tags without a name are dropped. -/
def dropEmptyEndTags : List Char → List Char
  | '<' :: '/' :: '>' :: rest => dropEmptyEndTags rest
  | input => input

/-- The end tag of the raw text element `tag` begins here. -/
def endsRawText (tag : String) : List Char → Bool
  | '<' :: '/' :: rest =>
    match afterIgnoringCase? tag.toList rest with
    | some [] => true
    | some (c :: _) => endsName c
    | none => false
  | _ => false

/-- Raw text up to the end tag of `tag`, or to the end. -/
def rawText (tag : String) : List Char → List Char × List Char
  | [] => ([], [])
  | c :: cs =>
    if endsRawText tag (c :: cs) then ([], c :: cs)
    else
      let (before, rest) := rawText tag cs
      (c :: before, rest)

/-- The raw text of `tag` as a token, if there is any. Nothing ends a `plaintext` element. -/
def rawText? (tag : String) (input : List Char) : Option (Token × List Char) :=
  let (before, rest) := if sameIgnoringCase tag "plaintext" then (input, []) else rawText tag input
  match before with
  | [] => none
  | c :: cs => some (ofText (c :: cs), rest)

/-- Reads a token where no raw text begins. -/
def plain? (input : List Char) : Option (Token × List Char) :=
  match input with
  | [] => none
  | '<' :: rest => some (afterAngle rest)
  | _ => some (ofText (input.takeWhile (· != '<')), input.dropWhile (· != '<'))

/-- Reads one token: raw text of `raw` first, if asked for. Nothing at the end of the input. -/
def next? (raw : Option String) (input : List Char) : Option (Token × List Char) :=
  match raw.bind (rawText? · input) with
  | some result => some result
  | none => plain? (dropEmptyEndTags input)

/-! ## Reading ends -/

/-- A bogus comment takes nothing back. -/
theorem length_bogusComment_le (body : List Char) :
    (bogusComment body).2.length ≤ body.length := by
  unfold bogusComment
  split
  · next h => exact Nat.le_of_lt (length_breakOnChar?_lt h)
  · simp

/-- A proper comment takes nothing back. -/
theorem length_properComment_le (body : List Char) :
    (properComment body).2.length ≤ body.length := by
  unfold properComment
  split
  · simp
  · simp only [List.length_cons]
    omega
  · split
    · next h => exact length_breakOn?_le h
    · simp

/-- A declaration takes nothing back. -/
theorem length_declaration_le (body : List Char) :
    (declaration body).2.length ≤ body.length := by
  have hlen {mark inner : List Char} (h : mark.isPrefixOf? body = some inner) :
      inner.length ≤ body.length := by
    have := congrArg List.length (eq_append_of_isPrefixOf? h)
    simp only [List.length_append] at this
    omega
  unfold declaration
  split
  · next inner h => exact Nat.le_trans (length_properComment_le inner) (hlen h)
  · split
    · split
      · next h => exact Nat.le_of_lt (length_breakOnChar?_lt h)
      · simp
    · split
      · next inner h =>
        split
        · next hb => exact Nat.le_trans (length_breakOn?_le hb) (hlen h)
        · simp
      · exact length_bogusComment_le body

/-- An end tag takes nothing back. -/
theorem length_closing_le (body : List Char) : (closing body).2.length ≤ body.length := by
  unfold closing
  split
  · simp
  · next c cs =>
    split
    · split
      · next h =>
        have := length_breakOnChar?_lt h
        have := length_dropWhile_le (!endsName ·) (c :: cs)
        simp only at *
        omega
      · simp
    · exact length_bogusComment_le _

/-- What follows an angle bracket takes nothing back. -/
theorem length_afterAngle_le (input : List Char) :
    (afterAngle input).2.length ≤ input.length := by
  unfold afterAngle
  split
  · next body => exact Nat.le_succ_of_le (length_declaration_le body)
  · next body =>
    split
    · next h => exact Nat.le_succ_of_le (Nat.le_of_lt (length_breakOnChar?_lt h))
    · simp
  · next body => exact Nat.le_succ_of_le (length_closing_le body)
  · split
    · split
      · next h => exact StartTag.length_read?_le h
      · simp
    · exact length_dropWhile_le _ _
  · simp

/-- End tags without a name are skipped, and nothing else. -/
theorem length_dropEmptyEndTags_le (input : List Char) :
    (dropEmptyEndTags input).length ≤ input.length := by
  fun_induction dropEmptyEndTags input with
  | case1 rest ih =>
    simp only [List.length_cons]
    omega
  | case2 => exact Nat.le_refl _

/-- Raw text and the rest make up the input. -/
theorem rawText_append (tag : String) (input : List Char) :
    (rawText tag input).1 ++ (rawText tag input).2 = input := by
  induction input with
  | nil => rfl
  | cons c cs ih =>
    unfold rawText
    split
    · rfl
    · simp [ih]

/-- A raw text takes some of the input. -/
theorem length_rawText?_lt {tag : String} {input rest : List Char} {token : Token}
    (h : rawText? tag input = some (token, rest)) : rest.length < input.length := by
  unfold rawText? at h
  have hsplit : ∀ before after : List Char, before ++ after = input →
      (match before with
        | [] => none
        | c :: cs => some (ofText (c :: cs), after)) = some (token, rest) →
      rest.length < input.length := by
    intro before after happ hm
    cases before with
    | nil => cases hm
    | cons c cs =>
      cases hm
      rw [← happ]
      simp only [List.length_append, List.length_cons]
      omega
  split at h
  next before after heq =>
  refine hsplit before after ?_ h
  split at heq
  · cases heq
    simp
  · rw [← rawText_append tag input, heq]

/-- Markup outside raw text takes some of the input. -/
theorem length_plain?_lt {input rest : List Char} {token : Token}
    (h : plain? input = some (token, rest)) : rest.length < input.length := by
  unfold plain? at h
  split at h
  · cases h
  · next cs =>
    have := length_afterAngle_le cs
    simp only [Option.some.injEq] at h
    rw [h] at this
    exact Nat.lt_succ_of_le this
  · next hempty hangle =>
    cases h
    cases input with
    | nil => exact absurd rfl hempty
    | cons c cs =>
      have hc : (c != '<') = true := by
        simp only [bne_iff_ne, ne_eq]
        intro hc
        exact hangle cs (by rw [hc])
      have := length_dropWhile_le (· != '<') cs
      rw [List.dropWhile_cons, if_pos hc]
      exact Nat.lt_succ_of_le this

/-- **Reading ends.** Every token leaves less to read. -/
theorem length_next?_lt {raw : Option String} {input rest : List Char} {token : Token}
    (h : next? raw input = some (token, rest)) : rest.length < input.length := by
  unfold next? at h
  split at h
  · next result hraw =>
    cases h
    cases raw with
    | none => cases hraw
    | some tag =>
      have htag : rawText? tag input = some (token, rest) := hraw
      exact length_rawText?_lt htag
  · exact Nat.lt_of_lt_of_le (length_plain?_lt h) (length_dropEmptyEndTags_le input)

end Token

end HtmlMinify
