import HtmlMinify.Proofs.RuleOrder
import HtmlMinify.Proofs.TagReading
import Mathlib.Algebra.Order.BigOperators.Group.List
import Mathlib.Algebra.Order.Ring.Nat

/-!
# Bytes of written nodes

How many bytes texts, values and tags take when they are written. Escaping depends on what is next
to a character, so bytes of texts do not just add up: joining two texts may cost three bytes, but
no more. Values take quotes, and those of the other kind inside them are escaped, so a value takes
no more bytes than another one that has as many bytes and quotes of each kind.

## Main statements

* `Text.escapedBytes_append_le`: what joining two texts costs.
* `Text.bytes_quoteValue_le`: what values cost with their quotes.
* `AttributeRule.Rule.cost_run_le`: no rule makes attributes cost more.
* `Content.bytes_writeStart_le`: no way of writing a start tag costs more than the plain one.
-/

namespace HtmlMinify

namespace Text

/-- The bytes of characters. -/
def bytes (cs : List Char) : Nat :=
  (cs.map Char.utf8Size).sum

@[simp]
theorem bytes_nil : bytes [] = 0 := rfl

@[simp]
theorem bytes_cons (c : Char) (cs : List Char) : bytes (c :: cs) = c.utf8Size + bytes cs := rfl

/-- Two texts together have as many bytes as one by one. -/
@[simp]
theorem bytes_append (cs ds : List Char) : bytes (cs ++ ds) = bytes cs + bytes ds := by
  rw [bytes, List.map_append, List.sum_append, bytes, bytes]

/-- A string has the bytes of its characters. -/
theorem utf8ByteSize_ofList (cs : List Char) : (String.ofList cs).utf8ByteSize = bytes cs := by
  induction cs with
  | nil => rfl
  | cons c cs ih =>
    have hsplit : String.ofList (c :: cs) = String.singleton c ++ String.ofList cs := by
      rw [String.singleton_eq_ofList, ← String.ofList_append]
      rfl
    rw [hsplit, String.utf8ByteSize_append, String.utf8ByteSize_singleton, ih, bytes_cons]

/-- Whitespace takes one byte, and makes nothing begin markup. -/
theorem utf8Size_of_isSpace {c : Char} (h : isSpace c = true) :
    c.utf8Size = 1 ∧ beginsMarkup c = false := by
  simp only [isSpace, Bool.or_eq_true, beq_iff_eq] at h
  rcases h with (((rfl | rfl) | rfl) | rfl) | rfl <;> decide

/-! ## Escaped texts -/

/-- The bytes of a text, escaped. -/
def escapedBytes (cs : List Char) : Nat :=
  bytes (escapeChars cs)

/-- Escaped, a bracket that begins markup takes four bytes, any other character as many as it
does. -/
theorem escapedBytes_cons (c : Char) (cs : List Char) :
    escapedBytes (c :: cs) =
      (if c == '<' && cs.head?.any beginsMarkup then 4 else c.utf8Size) + escapedBytes cs := by
  rw [escapedBytes, escapeChars, escapedBytes]
  split
  · rw [bytes_append]
    rfl
  · rw [bytes_cons]

/-- Escaping a character takes no bytes away. -/
theorem utf8Size_le_escaped (c : Char) (next : Option Char) :
    c.utf8Size ≤ if c == '<' && next.any beginsMarkup then 4 else c.utf8Size := by
  split
  · exact Char.utf8Size_le_four c
  · exact Nat.le_refl _

/-- A text has at least the bytes of its end. -/
theorem escapedBytes_le_append_right (cs ds : List Char) :
    escapedBytes ds ≤ escapedBytes (cs ++ ds) := by
  induction cs with
  | nil => exact Nat.le_refl _
  | cons c cs ih =>
    rw [List.cons_append, escapedBytes_cons]
    omega

/-- A text has at least the bytes of its beginning. -/
theorem escapedBytes_le_append_left (cs ds : List Char) :
    escapedBytes cs ≤ escapedBytes (cs ++ ds) := by
  induction cs with
  | nil => exact Nat.zero_le _
  | cons c cs ih =>
    rw [List.cons_append, escapedBytes_cons, escapedBytes_cons]
    cases cs with
    | nil =>
      have hhere := utf8Size_le_escaped c ds.head?
      simp only [List.head?_nil, Option.any_none, Bool.and_false, Bool.false_eq_true, if_false,
        List.nil_append] at hhere ih ⊢
      omega
    | cons d cs =>
      rw [List.cons_append, List.head?_cons, List.head?_cons]
      rw [List.cons_append] at ih
      omega

/-- **Joining two texts costs three bytes at most**: an angle bracket at the end of the first. -/
theorem escapedBytes_append_le (cs ds : List Char) :
    escapedBytes (cs ++ ds) ≤ escapedBytes cs + escapedBytes ds + 3 := by
  induction cs with
  | nil =>
    rw [List.nil_append]
    omega
  | cons c cs ih =>
    rw [List.cons_append, escapedBytes_cons, escapedBytes_cons]
    cases cs with
    | nil =>
      have hnone : escapedBytes [] = 0 := rfl
      have hpos := Char.utf8Size_pos c
      rw [List.nil_append, hnone, List.head?_nil, Option.any_none, Bool.and_false]
      split <;> simp only [Bool.false_eq_true, if_false] <;> omega
    | cons d cs =>
      rw [List.cons_append, List.head?_cons, List.head?_cons]
      rw [List.cons_append] at ih
      omega

/-- What follows an angle bracket makes it begin markup before and after whitespace is collapsed. -/
theorem any_beginsMarkup_collapseFrom (cs : List Char) :
    (collapseFrom false cs).head?.any beginsMarkup = cs.head?.any beginsMarkup := by
  cases cs with
  | nil => rfl
  | cons c cs =>
    rw [collapseFrom]
    cases hc : isSpace c with
    | false => rfl
    | true =>
      change beginsMarkup ' ' = beginsMarkup c
      rw [(utf8Size_of_isSpace hc).2]
      decide

/-- Collapsing makes no text longer when it is written. -/
theorem escapedBytes_collapseFrom_le (inRun : Bool) (cs : List Char) :
    escapedBytes (collapseFrom inRun cs) ≤ escapedBytes cs := by
  induction cs generalizing inRun with
  | nil => exact Nat.le_refl _
  | cons c cs ih =>
    have hhere := utf8Size_le_escaped c cs.head?
    rw [collapseFrom, escapedBytes_cons]
    cases hc : isSpace c with
    | false =>
      rw [if_neg Bool.false_ne_true, escapedBytes_cons, any_beginsMarkup_collapseFrom]
      have := ih false
      omega
    | true =>
      have hbelow := ih true
      have hsize := (utf8Size_of_isSpace hc).1
      have hblank : escapedBytes (' ' :: collapseFrom true cs) =
          1 + escapedBytes (collapseFrom true cs) := by
        rw [escapedBytes_cons]
        rfl
      rw [if_pos rfl]
      split
      · omega
      · rw [hblank]
        omega

/-- A measure of texts that is not more for a part of a text, and by three at most for two texts that
are joined. -/
structure Measure (size : List Char → Nat) : Prop where
  beginning : ∀ cs ds, size cs ≤ size (cs ++ ds)
  ending : ∀ cs ds, size ds ≤ size (cs ++ ds)
  joined : ∀ cs ds, size (cs ++ ds) ≤ size cs + size ds + 3
  collapsed : ∀ inRun cs, size (collapseFrom inRun cs) ≤ size cs

/-- The bytes of an escaped text are a measure: parts of a text have no more than all of it. -/
theorem measure_escapedBytes : Measure escapedBytes :=
  ⟨escapedBytes_le_append_left, escapedBytes_le_append_right, escapedBytes_append_le,
    escapedBytes_collapseFrom_le⟩

/-- So are the bytes of a text that is written as it is. -/
theorem measure_bytes : Measure bytes where
  beginning cs ds := by simp
  ending cs ds := by simp
  joined cs ds := by
    rw [bytes_append]
    omega
  collapsed inRun cs := by
    induction cs generalizing inRun with
    | nil => exact Nat.le_refl _
    | cons c cs ih =>
      have hpos := Char.utf8Size_pos c
      have hblank : Char.utf8Size ' ' = 1 := by decide
      have hrun := ih true
      have hword := ih false
      rw [collapseFrom, bytes_cons]
      split
      · split
        · omega
        · rw [bytes_cons, hblank]
          omega
      · rw [bytes_cons]
        omega

namespace Measure

variable {size : List Char → Nat}

/-- Nothing has the least size. -/
theorem nil_le (h : Measure size) (cs : List Char) : size [] ≤ size cs :=
  h.beginning [] cs

/-- Trimming its start makes no text longer. -/
theorem trimStart_le (h : Measure size) (s : String) : size (trimStart s).toList ≤ size s.toList := by
  rw [trimStart, String.toList_ofList, trimStartChars]
  have hend := h.ending (s.toList.takeWhile isSpace) (s.toList.dropWhile isSpace)
  rwa [List.takeWhile_append_dropWhile] at hend

/-- Trimming its end makes no text longer. -/
theorem trimEnd_le (h : Measure size) (s : String) : size (trimEnd s).toList ≤ size s.toList := by
  rw [trimEnd, String.toList_ofList, trimEndChars]
  have hstart := h.beginning (s.toList.reverse.dropWhile isSpace).reverse
    (s.toList.reverse.takeWhile isSpace).reverse
  rwa [← List.reverse_append, List.takeWhile_append_dropWhile, List.reverse_reverse] at hstart

/-- Trimming at block edges makes no text longer. -/
theorem trimmed_le (h : Measure size) (parent : Content) (before after : Option Content)
    (value : String) :
    size (Whitespace.trimmed parent before after value).toList ≤ size value.toList := by
  have hstart := h.trimStart_le value
  rw [Whitespace.trimmed]
  split
  · exact h.nil_le _
  · cases Whitespace.blockEdge before parent <;> cases Whitespace.blockEdge after parent
    · exact Nat.le_refl _
    · exact h.trimEnd_le value
    · exact hstart
    · exact Nat.le_trans (h.trimEnd_le _) hstart

end Measure

/-! ## Quoted values -/

/-- The second text has no more bytes, and no more quotes of either kind. -/
structure Shrinks (cs cs' : List Char) : Prop where
  bytes : bytes cs' ≤ bytes cs
  doubles : cs'.count '\x22' ≤ cs.count '\x22'
  singles : cs'.count '\x27' ≤ cs.count '\x27'

/-- Escaping takes five bytes more for each quote. -/
theorem bytes_flatMap_escapeQuote (cs : List Char) :
    bytes (cs.flatMap escapeQuote) = bytes cs + 5 * cs.count '\x22' := by
  induction cs with
  | nil => rfl
  | cons c cs ih =>
    rw [List.flatMap_cons, bytes_append, ih, bytes_cons, List.count_cons, escapeQuote]
    split
    · next hc =>
      rw [beq_iff_eq] at hc
      subst hc
      have hescaped : bytes "&quot;".toList = 6 := by decide
      have hplain : Char.utf8Size '\x22' = 1 := by decide
      rw [hescaped, hplain]
      omega
    · rw [bytes_cons, bytes_nil]
      omega

/-- The bytes of a value in quotes. -/
theorem bytes_quoteValue (value : String) :
    bytes (quoteValue value).toList = bytes value.toList + 2 +
      if 0 < value.toList.count '\x22' ∧ value.toList.count '\x27' = 0 then 0
      else 5 * value.toList.count '\x22' := by
  have hquote : bytes "'".toList = 1 ∧ bytes "\"".toList = 1 := by decide
  have hcond : (value.toList.contains '\x22' && !value.toList.contains '\x27') = true ↔
      0 < value.toList.count '\x22' ∧ value.toList.count '\x27' = 0 := by
    rw [Bool.and_eq_true, List.contains_iff_mem, Bool.not_eq_true', Bool.eq_false_iff, ne_eq,
      List.contains_iff_mem, List.count_pos_iff, List.count_eq_zero]
  rw [quoteValue]
  split
  · next h =>
    rw [if_pos (hcond.mp h)]
    simp only [String.toList_append, bytes_append, hquote.1]
    omega
  · next h =>
    rw [if_neg (fun hnot => h (hcond.mpr hnot))]
    simp only [String.toList_append, bytes_append, hquote.2, String.toList_ofList,
      bytes_flatMap_escapeQuote]
    omega

/-- **A value that shrinks takes no more bytes in quotes.** -/
theorem bytes_quoteValue_le {value value' : String} (h : Shrinks value.toList value'.toList) :
    bytes (quoteValue value').toList ≤ bytes (quoteValue value).toList := by
  obtain ⟨hbytes, hdoubles, hsingles⟩ := h
  rw [bytes_quoteValue, bytes_quoteValue]
  split <;> split <;> omega

/-! ## Words in order -/

/-- A measure that adds up, and that a blank has the least of among whitespace. -/
structure Additive (size : List Char → Nat) : Prop where
  append : ∀ cs ds, size (cs ++ ds) = size cs + size ds
  space : ∀ c, isSpace c = true → size [' '] ≤ size [c]

namespace Additive

variable {size : List Char → Nat}

theorem nil (h : Additive size) : size [] = 0 := by
  have happend := h.append [] []
  rw [List.append_nil] at happend
  omega

/-- A size that adds up is that of the first character and the rest. -/
theorem cons (h : Additive size) (c : Char) (cs : List Char) :
    size (c :: cs) = size [c] + size cs :=
  h.append [c] cs

/-- Words with blanks between them, whatever their order. -/
theorem intercalate (h : Additive size) (ws : List (List Char)) :
    size ([' '].intercalate ws) = (ws.map size).sum + (ws.length - 1) * size [' '] := by
  induction ws with
  | nil => simp [h.nil]
  | cons w ws ih =>
    cases ws with
    | nil => simp
    | cons v ws =>
      rw [List.intercalate_cons_cons, h.append, h.append, ih]
      simp only [List.map_cons, List.sum_cons, List.length_cons, Nat.add_sub_cancel, Nat.succ_mul]
      omega

/-- Words lose whitespace: that in front of them also counts. -/
theorem wordsOf_le (h : Additive size) (cs : List Char) :
    size ([' '].intercalate (wordsOf cs)) +
      (if cs.head?.any isSpace then size [' '] else 0) ≤ size cs := by
  induction cs with
  | nil => simp [wordsOf, h.nil]
  | cons c cs ih =>
    rw [h.cons c cs, List.head?_cons, Option.any_some]
    cases hc : isSpace c with
    | true =>
      have hspace := h.space c hc
      rw [wordsOf_space_cons hc, if_pos rfl]
      omega
    | false =>
      rw [if_neg Bool.false_ne_true]
      cases cs with
      | nil =>
        rw [wordsOf_singleton hc, List.intercalate_singleton]
        omega
      | cons d cs =>
        rw [List.head?_cons, Option.any_some] at ih
        cases hd : isSpace d with
        | true =>
          -- The blank after the word is one that stands there already.
          rw [hd, if_pos rfl] at ih
          rw [wordsOf_cons_space hc hd]
          cases hwords : wordsOf (d :: cs) with
          | nil =>
            rw [List.intercalate_singleton]
            omega
          | cons w ws =>
            rw [hwords] at ih
            rw [List.intercalate_cons_cons, h.append, h.append]
            omega
        | false =>
          rw [hd, if_neg Bool.false_ne_true] at ih
          rw [wordsOf_cons_cons hc hd]
          cases hwords : wordsOf (d :: cs) with
          | nil => exact absurd hwords (wordsOf_ne_nil hd cs)
          | cons w ws =>
            rw [hwords, h.intercalate] at ih
            rw [extendWord, h.intercalate]
            simp only [List.map_cons, List.sum_cons, List.length_cons, h.cons c w] at ih ⊢
            omega

/-- Sorting words makes no value longer: the blanks between them were there. -/
theorem sortedWords_le (h : Additive size) (value : String) :
    size (AttributeRule.sortedWords value).toList ≤ size value.toList := by
  have hwords := h.wordsOf_le value.toList
  have hperm : (((words value).mergeSort fun a b => decide (a ≤ b)).map String.toList).Perm
      (wordsOf value.toList) := by
    rw [← map_toList_words]
    exact (List.mergeSort_perm ..).map _
  rw [AttributeRule.sortedWords, String.toList_intercalate]
  change size ([' '].intercalate _) ≤ _
  rw [h.intercalate] at hwords ⊢
  rw [(hperm.map size).sum_nat, hperm.length_eq]
  omega

end Additive

theorem additive_bytes : Additive bytes where
  append := bytes_append
  space c hc := by
    have hpos := Char.utf8Size_pos c
    have hblank : Char.utf8Size ' ' = 1 := by decide
    simp only [bytes_cons, bytes_nil, hblank]
    omega

/-- How often a character other than a blank occurs adds up. -/
theorem additive_count {a : Char} (ha : a ≠ ' ') : Additive (List.count a) where
  append cs ds := List.count_append
  space c _ := by
    rw [List.count_singleton, if_neg (by simpa using ha.symm)]
    exact Nat.zero_le _

/-- Class names in order take no more bytes and quotes. -/
theorem shrinks_sortedWords (value : String) :
    Shrinks value.toList (AttributeRule.sortedWords value).toList :=
  ⟨additive_bytes.sortedWords_le value, (additive_count (by decide)).sortedWords_le value,
    (additive_count (by decide)).sortedWords_le value⟩

/-- A slash in the place of what a value begins with takes no more bytes and quotes. -/
theorem shrinks_slash (c : Char) (lost rest : List Char) :
    Shrinks (c :: lost ++ rest) ('/' :: rest) := by
  have hslash : Char.utf8Size '/' = 1 := by decide
  have hpos := Char.utf8Size_pos c
  refine ⟨?_, ?_, ?_⟩
  · simp only [List.cons_append, bytes_cons, bytes_append, hslash]
    omega
  · rw [List.count_append, List.count_cons_of_ne (by decide)]
    exact Nat.le_add_left ..
  · rw [List.count_append, List.count_cons_of_ne (by decide)]
    exact Nat.le_add_left ..

end Text

open Text

/-! ## Attributes -/

/-- The bytes of an attribute with its value in quotes. -/
def Attribute.cost (a : Attribute) : Nat :=
  bytes (a.write {}).toList

/-- The bytes of attributes with their values in quotes. -/
def Attributes.cost (as : Attributes) : Nat :=
  (as.toList.map Attribute.cost).sum

/-- An attribute is written as a blank, its name and its value. -/
theorem Attribute.bytes_write (options : WriteOptions) (a : Attribute) :
    bytes (a.write options).toList =
      1 + bytes a.name.toList + bytes (writeValue options a.value).toList := by
  have hblank : bytes " ".toList = 1 := by decide
  rw [write, String.toList_append, String.toList_append, bytes_append, bytes_append, hblank]

/-- What an attribute costs is what it takes to write it in quotes. -/
theorem Attribute.cost_eq (a : Attribute) :
    a.cost = 1 + bytes a.name.toList +
      a.value.elim 0 fun value => 1 + bytes (quoteValue value).toList := by
  rw [cost, bytes_write]
  cases a.value with
  | none => rfl
  | some value =>
    have hequals : bytes "=".toList = 1 := by decide
    change _ + bytes ("=" ++ quoteValue value).toList = _
    rw [String.toList_append, bytes_append, hequals, Option.elim_some]

/-- The attribute is the same, or its value shrinks. -/
inductive Attribute.Shrinks (a : Attribute) : Attribute → Prop where
  | same : Shrinks a a
  | value {value value' : String} : a.value = some value →
    Text.Shrinks value.toList value'.toList → Shrinks a { a with value := some value' }

/-- An attribute that shrinks costs no more. -/
theorem Attribute.Shrinks.cost_le {a a' : Attribute} (h : a.Shrinks a') : a'.cost ≤ a.cost := by
  cases h with
  | same => exact Nat.le_refl _
  | value hvalue hshrinks =>
    rw [cost_eq, cost_eq, hvalue, Option.elim_some, Option.elim_some]
    exact Nat.add_le_add_left (Nat.add_le_add_left (bytes_quoteValue_le hshrinks) 1) _

/-- Dropping attributes makes the others cost no more. -/
theorem Attributes.cost_le_of_sublist {as as' : Attributes}
    (h : as'.toList.Sublist as.toList) : as'.cost ≤ as.cost :=
  (h.map _).sum_le_sum fun _ _ => Nat.zero_le _

namespace AttributeRule

/-- Sorting class names shrinks an attribute. -/
theorem shrinks_sortClass (a : Attribute) : a.Shrinks (sortClass a) := by
  rw [sortClass]
  split
  · exact .same
  · next value hvalue =>
    split
    · exact .same
    · exact .value hvalue (shrinks_sortedWords value)

/-- Shortening its address shrinks an attribute. -/
theorem shrinks_readdressed {change? : String → Option String} (h : Links.Shortens change?)
    (a : Attribute) : a.Shrinks (Links.readdressed change? a) := by
  rw [Links.readdressed]
  cases hnew : Links.newAddress? change? a with
  | none => exact .same
  | some value =>
    rw [Links.newAddress?] at hnew
    split at hnew
    · obtain ⟨address, hvalue, hchange⟩ := Option.bind_eq_some_iff.mp hnew
      obtain ⟨c, lost, rest, haddress, rfl⟩ := h.slash hchange
      refine .value hvalue ?_
      rw [haddress, String.toList_ofList]
      exact shrinks_slash c lost rest
    · cases hnew

/-- Sorting the class names of one attribute makes all of them cost no more. -/
theorem cost_modifyFirst_le (p : Attribute → Bool) (items : List Attribute) :
    ((modifyFirst p sortClass items).map Attribute.cost).sum ≤
      (items.map Attribute.cost).sum := by
  induction items with
  | nil => exact Nat.le_refl _
  | cons a items ih =>
    have hhere := (shrinks_sortClass a).cost_le
    rw [modifyFirst]
    split <;> simp only [List.map_cons, List.sum_cons] <;> omega

/-- **No rule makes attributes cost more.** -/
theorem Rule.cost_run_le (rule : Rule) (c : Content) :
    (rule.run c).1.cost ≤ c.attributes.cost := by
  cases rule with
  | readdress change? shortens =>
    rw [run, Links.replaceAddresses_eq, Attributes.cost, List.map_map, Attributes.cost]
    refine List.sum_le_sum fun a _ => ?_
    rw [Function.comp_apply]
    exact (shrinks_readdressed shortens a).cost_le
  | dropOne d => exact Attributes.cost_le_of_sublist (d.sublist_rule c)
  | dropAll drops fades => exact Attributes.cost_le_of_sublist (sublist_dropEach c _ drops)
  | dropEmpty => exact Attributes.cost_le_of_sublist List.filter_sublist
  | orderClasses => exact cost_modifyFirst_le _ c.attributes.toList
  | orderNames => exact Nat.le_of_eq ((perm_sortByName c).map _).sum_nat

end AttributeRule

/-! ## Start tags -/

/-- A text of many parts has the bytes of all of them. -/
theorem bytes_flatMap {α : Type} (l : List α) (g : α → List Char) :
    bytes (l.flatMap g) = (l.map fun a => bytes (g a)).sum := by
  induction l with
  | nil => rfl
  | cons a l ih => rw [List.flatMap_cons, bytes_append, ih, List.map_cons, List.sum_cons]

/-- A value costs two bytes less without its quotes. -/
theorem Attribute.bytes_write_le (options : WriteOptions) (a : Attribute) :
    bytes (a.write options).toList + (if a.value.any (writesBare options) then 2 else 0) ≤
      a.cost := by
  have hequals : bytes "=".toList = 1 := by decide
  rw [bytes_write, cost_eq]
  cases a.value with
  | none => exact Nat.le_refl _
  | some value =>
    rw [Option.any_some, Option.elim_some, writeValue]
    split
    · next hempty =>
      have hquoted : writesBare options value = false := by
        rw [Bool.and_eq_true] at hempty
        rw [writesBare, canUnquote, hempty.2]
        simp
      have hnone : bytes "".toList = 0 := by decide
      rw [hquoted, if_neg Bool.false_ne_true, hnone]
      omega
    · cases hbare : writesBare options value with
      | true =>
        have hquoted := bytes_quoteValue value
        rw [if_pos rfl, if_pos rfl, String.toList_append, bytes_append, hequals]
        omega
      | false =>
        rw [if_neg Bool.false_ne_true, if_neg Bool.false_ne_true, String.toList_append,
          bytes_append, hequals, Nat.add_zero]

/-- A last value without quotes pays for the blank that then stands after it. -/
theorem Attributes.sum_write_le (options : WriteOptions) (as : Attributes) :
    (as.toList.map fun a => bytes (a.write options).toList).sum +
      (if as.endsBare options then 2 else 0) ≤ as.cost := by
  have hall : ∀ l : List Attribute, (l.map fun a => bytes (a.write options).toList).sum ≤
      (l.map Attribute.cost).sum := by
    intro l
    exact List.sum_le_sum fun a _ => Nat.le_trans (Nat.le_add_right ..) (a.bytes_write_le options)
  rw [cost, endsBare]
  rcases List.eq_nil_or_concat as.toList with hnil | ⟨before, last, hlast⟩
  · rw [hnil]
    exact Nat.le_refl _
  · have hbefore := hall before
    have hhere := last.bytes_write_le options
    rw [hlast, List.concat_eq_append, List.getLast?_concat, Option.bind_some, List.map_append,
      List.map_append, List.sum_append, List.sum_append, List.map_singleton, List.map_singleton,
      List.sum_singleton, List.sum_singleton]
    omega

/-- With all quotes written no attribute ends without one. -/
theorem Attributes.endsBare_plain (as : Attributes) : as.endsBare {} = false := by
  rw [endsBare]
  cases as.toList.getLast?.bind (·.value) <;> rfl

namespace Content

/-- A start tag is written as a bracket, its name, its attributes and its end. -/
theorem bytes_writeStart (options : WriteOptions) (c : Content) :
    bytes (c.writeStart options).toList = 1 + bytes c.name.toList +
      (c.attributes.toList.map fun a => bytes (a.write options).toList).sum +
      bytes (c.tagEnd options) := by
  have hangle : Char.utf8Size '<' = 1 := by decide
  rw [toList_writeStart, bytes_cons, bytes_append, bytes_append, bytes_flatMap, hangle]
  omega

/-- Leaving out quotes makes the end of a tag two bytes longer at most. -/
theorem bytes_tagEnd_le (options : WriteOptions) (c : Content) :
    bytes (c.tagEnd options) ≤
      bytes (c.tagEnd {}) + if c.attributes.endsBare options then 2 else 0 := by
  have hbytes : bytes [' ', '/', '>'] = 3 ∧ bytes ['/', '>'] = 2 := by decide
  rw [tagEnd, tagEnd, Attributes.endsBare_plain]
  split
  · split
    · rw [if_neg Bool.false_ne_true, hbytes.1, hbytes.2]
      omega
    · exact Nat.le_refl _
  · exact Nat.le_add_right ..

/-- **The plain start tag costs most.** -/
theorem bytes_writeStart_le (options : WriteOptions) (c : Content) :
    bytes (c.writeStart options).toList ≤ bytes (c.writeStart {}).toList := by
  have hattributes := c.attributes.sum_write_le options
  have hend := c.bytes_tagEnd_le options
  have hplain : c.attributes.cost =
      (c.attributes.toList.map fun a => bytes (a.write {}).toList).sum := rfl
  rw [bytes_writeStart, bytes_writeStart]
  omega

/-- An element costs no more with attributes that do not. -/
theorem bytes_writeStart_attributes_le {c : Content} {as : Attributes}
    (h : as.cost ≤ c.attributes.cost) :
    bytes (({ c with attributes := as } : Content).writeStart {}).toList ≤
      bytes (c.writeStart {}).toList := by
  have hend : ({ c with attributes := as } : Content).tagEnd {} = c.tagEnd {} := by
    rw [tagEnd, tagEnd, Attributes.endsBare_plain, Attributes.endsBare_plain]
  rw [bytes_writeStart, bytes_writeStart, hend]
  exact Nat.add_le_add_right (Nat.add_le_add_left h _) _

end Content

end HtmlMinify
