import HtmlMinify.Proofs.TextReading

/-!
# What tokens can hold

Whatever the input, the reader gives only tokens that can be written again: names are names, values
do not hold the mark that ends them, texts are not empty.

## Main statements

* `StartTag.spelled_of_read?`: start tags.
* `Token.spelled_of_next?`: all tokens.
-/

namespace HtmlMinify

open Text

/-! ## Attributes -/

namespace Attributes

/-- Of attributes with the same name the first is kept, and nothing is added. -/
theorem mem_of_mem_distinctAfter {seen : Std.HashSet String} {items : List Attribute}
    {a : Attribute} (h : a ∈ distinctAfter seen items) : a ∈ items := by
  induction items generalizing seen with
  | nil => exact h
  | cons b items ih =>
    rw [distinctAfter] at h
    split at h
    · exact List.mem_cons_of_mem b (ih h)
    · rcases List.mem_cons.mp h with rfl | h
      · exact List.mem_cons_self
      · exact List.mem_cons_of_mem b (ih h)

/-- The keys that stay are new, and distinct. -/
theorem nodup_distinctAfter (seen : Std.HashSet String) (items : List Attribute) :
    ((distinctAfter seen items).map (·.key)).Nodup ∧
      ∀ a ∈ distinctAfter seen items, seen.contains a.key = false := by
  induction items generalizing seen with
  | nil => exact ⟨List.nodup_nil, by simp [distinctAfter]⟩
  | cons a items ih =>
    rw [distinctAfter]
    split
    · exact ih seen
    · next hnew =>
      obtain ⟨hnodup, hlater⟩ := ih (seen.insert a.key)
      have hother : ∀ b ∈ distinctAfter (seen.insert a.key) items,
          (a.key == b.key) = false ∧ seen.contains b.key = false := by
        intro b hb
        have := hlater b hb
        rwa [Std.HashSet.contains_insert, Bool.or_eq_false_iff] at this
      refine ⟨?_, ?_⟩
      · rw [List.map_cons, List.nodup_cons]
        refine ⟨fun hmem => ?_, hnodup⟩
        obtain ⟨b, hb, hkey⟩ := List.mem_map.mp hmem
        have := (hother b hb).1
        simp [hkey] at this
      · intro b hb
        rcases List.mem_cons.mp hb with rfl | hb
        · simpa using hnew
        · exact (hother b hb).2

/-- Attributes that were read one after the other are named well if each is. -/
theorem named_ofList {items : List Attribute} (h : ∀ a ∈ items, Attribute.IsName a.name) :
    (ofList items).Named :=
  ⟨fun a ha => h a (mem_of_mem_distinctAfter ha), (nodup_distinctAfter ∅ items).1⟩

end Attributes

namespace StartTag

/-- The name of an attribute goes on as far as characters of a name do. -/
theorem name_of_readAttribute? {first : Char} {input rest : List Char} {a : Attribute}
    (h : readAttribute? first input = some (a, rest)) :
    a.name = String.ofList (first :: input.takeWhile inAttributeName) := by
  unfold readAttribute? at h
  simp only at h
  split at h
  · split at h
    · cases h
      rfl
    · cases h
  · cases h
    rfl

/-- The name of an attribute that was read is a name. -/
theorem isName_of_readAttribute? {first : Char} {input rest : List Char} {a : Attribute}
    (hfirst : endsName first = false) (h : readAttribute? first input = some (a, rest)) :
    Attribute.IsName a.name := by
  have hmore : ∀ c ∈ input.takeWhile inAttributeName, endsName c = false ∧ c ≠ '=' := by
    intro c hc
    have := List.mem_takeWhile_imp hc
    simpa [inAttributeName] using this
  rw [name_of_readAttribute? h, Attribute.IsName, String.toList_ofList]
  refine ⟨by simp, ?_, fun hmem => (hmore _ hmem).2 rfl⟩
  intro c hc
  rcases List.mem_cons.mp hc with rfl | hc
  · exact hfirst
  · exact (hmore c hc).1

/-- The attributes that are read have proper names. -/
theorem isName_of_readAttributes? {found as : List Attribute} {input rest : List Char}
    {selfClosing : Bool} (hfound : ∀ a ∈ found, Attribute.IsName a.name)
    (h : readAttributes? found input = some (as, selfClosing, rest)) :
    ∀ a ∈ as, Attribute.IsName a.name := by
  fun_induction readAttributes? found input with
  | case1 => cases h
  | case2 =>
    cases h
    exact hfound
  | case3 =>
    cases h
    exact hfound
  | case4 found input after heq _ ih => exact ih hfound h
  | case5 found input c after hgt hslash hslash' heq a unread ha ih =>
    refine ih (fun b hb => ?_) h
    rcases List.mem_cons.mp hb with rfl | hb
    · have hhead : (input.dropWhile isSpace).head? = some c := by rw [heq, List.head?_cons]
      have hspace : isSpace c = false := head?_dropWhile_eq_false hhead
      have hends : endsName c = false := by
        have hc : c ≠ '/' := fun hc => by simp_all
        have hc' : c ≠ '>' := fun hc => by simp_all
        simp [endsName, hspace, hc, hc']
      exact isName_of_readAttribute? hends ha
    · exact hfound b hb
  | case6 => simp_all

/-- A letter ends no name. -/
theorem endsName_of_isAlpha {c : Char} (h : c.isAlpha = true) : endsName c = false := by
  rw [Bool.eq_false_iff]
  intro hends
  simp only [endsName, isSpace, Bool.or_eq_true, beq_iff_eq] at hends
  rcases hends with ((((((rfl | rfl) | rfl) | rfl) | rfl) | rfl) | rfl) <;>
    exact absurd h (by decide)

/-- **A start tag that was read can be written.** -/
theorem spelled_of_read? {input rest : List Char} {tag : StartTag}
    (hinput : input.head?.any Char.isAlpha = true) (h : read? input = some (tag, rest)) :
    Tag.IsName tag.name ∧ tag.attributes.Named := by
  unfold read? at h
  split at h
  · next found selfClosing unread hread =>
    cases h
    have hnames := isName_of_readAttributes? (by simp) hread
    refine ⟨?_, Attributes.named_ofList fun a ha => hnames a (List.mem_reverse.mp ha)⟩
    rw [Tag.IsName, String.toList_ofList]
    refine ⟨?_, fun c hc => by simpa using List.mem_takeWhile_imp hc⟩
    cases input with
    | nil => simp at hinput
    | cons c input =>
      have hc : c.isAlpha = true := by simpa using hinput
      rw [List.takeWhile_cons, if_pos (by simp [endsName_of_isAlpha hc])]
      simpa using hc
  · cases h

end StartTag

namespace Token

/-- The token can be written so that it is read again. -/
def Spelled : Token → Prop
  | .startTag tag => Tag.IsName tag.name ∧ tag.attributes.Named
  | .endTag _ => True
  | .text value => value ≠ ""
  | .comment value => (Content.leaf .comment value).Spelled
  | .cdata value => (Content.leaf .cdata value).Spelled
  | .instruction value => (Content.leaf .instruction value).Spelled
  | .doctype value => (Content.leaf .doctype value).Spelled

/-- A text that is not empty can be written. -/
theorem spelled_ofText {cs : List Char} (h : cs ≠ []) : (ofText cs).Spelled := by
  intro hempty
  have hcs := congrArg String.toList hempty
  rw [String.toList_ofList] at hcs
  exact h hcs

/-- A value without `>` can be that of a comment. -/
theorem spelled_comment_of_not_mem {value : List Char} (h : '>' ∉ value) :
    Spelled (.comment (String.ofList value)) := by
  change (¬ _ <:+: (String.ofList value).toList) ∧ (¬ _ <+: (String.ofList value).toList) ∧
    ¬ _ <+: (String.ofList value).toList
  rw [String.toList_ofList]
  refine ⟨fun hin => h ?_, fun hpre => h ?_, fun hpre => h ?_⟩
  · exact hin.subset (by simp)
  · exact hpre.subset (by simp)
  · exact hpre.subset (by simp)

/-- A bogus comment ends at the first bracket, so it holds none. -/
theorem spelled_bogusComment (body : List Char) : (bogusComment body).1.Spelled := by
  unfold bogusComment
  split
  · next hbreak => exact spelled_comment_of_not_mem (not_mem_of_breakOnChar? hbreak)
  · next hbreak => exact spelled_comment_of_not_mem (not_mem_of_breakOnChar?_none hbreak)

/-- A proper comment does not hold what ends it. -/
theorem spelled_properComment (body : List Char) : (properComment body).1.Spelled := by
  have hempty : Spelled (.comment "") := by
    have hnil : '>' ∉ ([] : List Char) := by simp
    exact spelled_comment_of_not_mem hnil
  unfold properComment
  split
  · exact hempty
  · exact hempty
  · next hgt hdash =>
    have hstart : ∀ {value after : List Char}, body = value ++ after →
        ¬ ['>'] <+: value ∧ ¬ ['-', '>'] <+: value := by
      intro value after hbody
      refine ⟨?_, ?_⟩
      · rintro ⟨tail, rfl⟩
        exact hgt (tail ++ after) hbody
      · rintro ⟨tail, rfl⟩
        exact hdash (tail ++ after) hbody
    split
    · next value rest hbreak =>
      have hbody : body = value ++ (['-', '-', '>'] ++ rest) := by
        rw [← List.append_assoc]
        exact eq_append_of_breakOn? hbreak
      change (¬ _ <:+: (String.ofList value).toList) ∧ (¬ _ <+: (String.ofList value).toList) ∧
        ¬ _ <+: (String.ofList value).toList
      rw [String.toList_ofList]
      exact ⟨not_infix_of_breakOn? (by simp) hbreak, hstart hbody⟩
    · next hbreak =>
      change (¬ _ <:+: (String.ofList body).toList) ∧ (¬ _ <+: (String.ofList body).toList) ∧
        ¬ _ <+: (String.ofList body).toList
      rw [String.toList_ofList]
      exact ⟨not_infix_of_breakOn?_none hbreak, hstart (List.append_nil body).symm⟩

/-- A section without its end can be written. -/
theorem spelled_cdata {value : List Char} (h : ¬ [']', ']', '>'] <:+: value) :
    Spelled (.cdata (String.ofList value)) := by
  change ¬ _ <:+: (String.ofList value).toList
  rwa [String.toList_ofList]

/-- An instruction without a bracket can be written. -/
theorem spelled_instruction {value : List Char} (h : '>' ∉ value) :
    Spelled (.instruction (String.ofList value)) := by
  change '>' ∉ (String.ofList value).toList
  rwa [String.toList_ofList]

/-- A doctype that is found up to `>` begins as one. -/
theorem spelled_doctype {body after value rest : List Char}
    (h : afterIgnoringCase? "doctype".toList body = some after)
    (hbreak : breakOnChar? '>' body = some (value, rest)) :
    Spelled (.doctype (String.ofList value)) := by
  have hword : ∀ c ∈ "doctype".toList, c.toLower.isAlpha = true := by
    simp
  change '>' ∉ (String.ofList value).toList ∧
    (afterIgnoringCase? "doctype".toList (String.ofList value).toList).isSome = true
  rw [String.toList_ofList]
  refine ⟨not_mem_of_breakOnChar? hbreak, ?_⟩
  rw [Option.isSome_iff_ne_none]
  intro hnone
  have hmiss := afterIgnoringCase?_append_of_none hword (by decide : '>'.toLower.isAlpha = false)
    hnone rest
  rw [← eq_append_of_breakOnChar? hbreak, h] at hmiss
  cases hmiss

/-- Whatever is read as a declaration can be written. -/
theorem spelled_declaration (body : List Char) : (declaration body).1.Spelled := by
  unfold declaration
  split
  · exact spelled_properComment _
  · split
    · next after hafter =>
      split
      · next hbreak => exact spelled_doctype hafter hbreak
      · exact spelled_ofText (by simp)
    · split
      · split
        · next hbreak => exact spelled_cdata (not_infix_of_breakOn? (by simp) hbreak)
        · next hbreak => exact spelled_cdata (not_infix_of_breakOn?_none hbreak)
      · exact spelled_bogusComment body

/-- Whatever is read as an end tag can be written. -/
theorem spelled_closing (body : List Char) : (closing body).1.Spelled := by
  unfold closing
  split
  · exact spelled_ofText (by simp)
  · split
    · split
      · trivial
      · exact spelled_ofText (by simp)
    · exact spelled_bogusComment _

/-- Whatever is read after an angle bracket can be written. -/
theorem spelled_afterAngle (input : List Char) : (afterAngle input).1.Spelled := by
  unfold afterAngle
  split
  · exact spelled_declaration _
  · split
    · next hbreak => exact spelled_instruction (not_mem_of_breakOnChar? hbreak)
    · exact spelled_ofText (by simp)
  · exact spelled_closing _
  · next c more _ _ _ =>
    split
    · next hc =>
      split
      · next hread => exact StartTag.spelled_of_read? (by simpa using hc) hread
      · exact spelled_ofText (by simp)
    · exact spelled_ofText (by simp)
  · exact spelled_ofText (by simp)

/-- Whatever is read outside raw text can be written. -/
theorem spelled_of_plain? {input rest : List Char} {token : Token}
    (h : plain? input = some (token, rest)) : token.Spelled := by
  unfold plain? at h
  split at h
  · cases h
  · next more =>
    have := spelled_afterAngle more
    rwa [Option.some.inj h] at this
  · next hempty hangle =>
    cases h
    cases input with
    | nil => exact absurd rfl hempty
    | cons c cs =>
      have hc : (c != '<') = true := by
        rw [bne_iff_ne]
        rintro rfl
        exact hangle cs rfl
      exact spelled_ofText (by rw [List.takeWhile_cons, if_pos hc]; simp)

/-- Whatever is read as raw text can be written. -/
theorem spelled_of_rawText? {tag : String} {input rest : List Char} {token : Token}
    (h : rawText? tag input = some (token, rest)) : token.Spelled := by
  unfold rawText? at h
  split at h
  next before after heq =>
  cases before with
  | nil => cases h
  | cons c cs =>
    cases h
    exact spelled_ofText (by simp)

/-- **Every token that was read can be written.** -/
theorem spelled_of_next? {raw : Option String} {input rest : List Char} {token : Token}
    (h : next? raw input = some (token, rest)) : token.Spelled := by
  unfold next? at h
  split at h
  · next result hraw =>
    cases h
    obtain ⟨tag, _, htag⟩ := Option.bind_eq_some_iff.mp hraw
    exact spelled_of_rawText? htag
  · exact spelled_of_plain? h

end Token

end HtmlMinify
