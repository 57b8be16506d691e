import HtmlMinify.Text.Ascii
import HtmlMinify.Text.Scan
import Mathlib.Data.List.TakeWhile
import Mathlib.Data.List.Infix

/-!
# What the searches of the reader find

The reader cuts its input by leading runs (`takeWhile`, `dropWhile`) and by first occurrences
(`breakOnChar?`, `breakOn?`). Each cut is described from both sides: what it gives on a text that was
put together from the parts, and what the parts of a successful cut are like.

## Main statements

* `takeWhile_append_stop`, `dropWhile_append_stop`: a run ends where a character outside it follows.
* `breakOnChar?_append`, `breakOn?_append`: a mark is found where it was put.
* `not_infix_of_breakOn?`: nothing before the first occurrence is an occurrence.
-/

namespace HtmlMinify.Text

variable {α : Type}

/-! ## Runs -/

/-- A scan that what follows a text would stop does not leave the text. -/
theorem takeWhile_append_of_stop {p : α → Bool} (text : List α) {rest : List α}
    (hrest : ∀ c ∈ rest.head?, p c = false) : (text ++ rest).takeWhile p = text.takeWhile p := by
  induction text with
  | nil =>
    cases rest with
    | nil => rfl
    | cons c rest => rw [List.nil_append, List.takeWhile_cons, hrest c rfl]; rfl
  | cons c text ih => rw [List.cons_append, List.takeWhile_cons, List.takeWhile_cons, ih]

/-- What such a scan leaves of the text stands before what follows. -/
theorem dropWhile_append_of_stop {p : α → Bool} (text : List α) {rest : List α}
    (hrest : ∀ c ∈ rest.head?, p c = false) :
    (text ++ rest).dropWhile p = text.dropWhile p ++ rest := by
  induction text with
  | nil =>
    cases rest with
    | nil => rfl
    | cons c rest => rw [List.nil_append, List.dropWhile_cons, hrest c rfl]; rfl
  | cons c text ih =>
    rw [List.cons_append, List.dropWhile_cons, List.dropWhile_cons, ih]
    split <;> rfl

/-- A run is taken whole in front of a text that does not begin with one. -/
theorem takeWhile_append_stop {p : α → Bool} {run rest : List α} (hrun : ∀ c ∈ run, p c = true)
    (hrest : ∀ c ∈ rest.head?, p c = false) : (run ++ rest).takeWhile p = run := by
  rw [takeWhile_append_of_stop run hrest, List.takeWhile_eq_self_iff]
  exact hrun

/-- What follows such a run is the rest. -/
theorem dropWhile_append_stop {p : α → Bool} {run rest : List α} (hrun : ∀ c ∈ run, p c = true)
    (hrest : ∀ c ∈ rest.head?, p c = false) : (run ++ rest).dropWhile p = rest := by
  rw [dropWhile_append_of_stop run hrest, List.dropWhile_eq_nil_iff.mpr hrun, List.nil_append]

/-- The character at which a run stops is outside it. -/
theorem head?_dropWhile_eq_false {p : α → Bool} {text : List α} {c : α}
    (h : (text.dropWhile p).head? = some c) : p c = false := by
  induction text with
  | nil => cases h
  | cons d text ih =>
    rw [List.dropWhile_cons] at h
    split at h
    · exact ih h
    · next hd =>
      cases h
      simpa using hd

/-! ## One character -/

/-- A character is found where it was put, if it does not occur before. -/
theorem breakOnChar?_append {mark : Char} {before : List Char} (h : mark ∉ before)
    (rest : List Char) : breakOnChar? mark (before ++ mark :: rest) = some (before, rest) := by
  induction before with
  | nil => simp [breakOnChar?]
  | cons c before ih =>
    have hc : c ≠ mark := fun hc => h (by simp [hc])
    have hbefore : mark ∉ before := fun hm => h (by simp [hm])
    rw [List.cons_append, breakOnChar?, if_neg (by simpa using hc), ih hbefore]

/-- The part before the first occurrence of a character does not hold it. -/
theorem not_mem_of_breakOnChar? {mark : Char} {text before rest : List Char}
    (h : breakOnChar? mark text = some (before, rest)) : mark ∉ before := by
  induction text generalizing before with
  | nil => simp [breakOnChar?] at h
  | cons c text ih =>
    simp only [breakOnChar?] at h
    split at h
    · cases h
      simp
    · next hc =>
      split at h
      · next b r hb =>
        cases h
        have hc : c ≠ mark := by simpa using hc
        simpa using ⟨fun h => hc h.symm, ih hb⟩
      · cases h

/-- A character that is not found does not occur. -/
theorem not_mem_of_breakOnChar?_none {mark : Char} {text : List Char}
    (h : breakOnChar? mark text = none) : mark ∉ text := by
  induction text with
  | nil => simp
  | cons c text ih =>
    simp only [breakOnChar?] at h
    split at h
    · cases h
    · next hc =>
      split at h
      · cases h
      · next hb =>
        have hc : c ≠ mark := by simpa using hc
        simpa using ⟨fun h => hc h.symm, ih hb⟩

/-! ## Several characters -/

/-- A text is recognised by its beginning. -/
theorem isPrefixOf?_append (mark rest : List Char) :
    mark.isPrefixOf? (mark ++ rest) = some rest := by
  induction mark with
  | nil => rfl
  | cons c mark ih =>
    change (if c == c then mark.isPrefixOf? (mark ++ rest) else none) = some rest
    rw [if_pos (beq_self_eq_true c), ih]

theorem isPrefixOf?_cons_of_ne {m c : Char} (h : m ≠ c) (mark text : List Char) :
    (m :: mark).isPrefixOf? (c :: text) = none :=
  if_neg (by simpa using h)

/-- A beginning that is not recognised is not there. -/
theorem not_prefix_of_isPrefixOf?_none {mark text : List Char}
    (h : mark.isPrefixOf? text = none) : ¬ mark <+: text := by
  rintro ⟨rest, rfl⟩
  rw [isPrefixOf?_append] at h
  cases h

/-- A mark of two parts is found where it was put, if it does not occur before. The last character
of the mark occurs in it only once, so that no occurrence can begin before its place and end
inside it. -/
theorem breakOn?_append {stem before : List Char} {last : Char} (hlast : last ∉ stem)
    (h : ¬ (stem ++ [last]) <:+: before) (rest : List Char) :
    breakOn? (stem ++ [last]) (before ++ (stem ++ [last]) ++ rest) = some (before, rest) := by
  induction before with
  | nil =>
    cases htext : stem ++ [last] ++ rest with
    | nil => simp at htext
    | cons c text =>
      rw [List.nil_append, htext, breakOn?, ← htext, isPrefixOf?_append]
  | cons c before ih =>
    have hbefore : ¬ (stem ++ [last]) <:+: before :=
      fun hin => h (hin.trans (List.suffix_cons c before).isInfix)
    have hnone : (stem ++ [last]).isPrefixOf?
        (c :: (before ++ (stem ++ [last]) ++ rest)) = none := by
      by_contra hsome
      obtain ⟨after, hafter⟩ := Option.ne_none_iff_exists'.mp hsome
      have hsplit := eq_append_of_isPrefixOf? hafter
      -- an occurrence at the front would end inside `before`, or its last character would
      -- stand in `stem`
      have hlen : (stem ++ [last]).length ≤ (c :: before).length := by
        by_contra hlong
        simp only [List.length_append, List.length_cons, List.length_nil] at hlong
        have hget := congrArg (fun l => l[stem.length]?) hsplit
        simp only [List.append_assoc] at hget
        rw [List.getElem?_append_right (by simp), ← List.cons_append,
          List.getElem?_append_right (by simp; omega),
          List.getElem?_append_left (by simp; omega)] at hget
        have hmem : last ∈ stem := by
          refine List.mem_of_getElem? (i := stem.length - (c :: before).length) ?_
          rw [hget]
          simp
        exact hlast hmem
      have hmark : (stem ++ [last]) <+: c :: (before ++ (stem ++ [last]) ++ rest) :=
        ⟨after, hsplit.symm⟩
      have hfront : c :: before <+: c :: (before ++ (stem ++ [last]) ++ rest) :=
        ⟨(stem ++ [last]) ++ rest, by simp⟩
      have hpre : (stem ++ [last]) <+: c :: before :=
        List.prefix_of_prefix_length_le hmark hfront hlen
      exact h hpre.isInfix
    rw [List.cons_append, List.cons_append, breakOn?, hnone, ih hbefore]

/-- Nothing before the first occurrence of a mark is an occurrence of it. -/
theorem not_infix_of_breakOn? {mark text before rest : List Char}
    (hmark : mark ≠ []) (h : breakOn? mark text = some (before, rest)) :
    ¬ mark <:+: before := by
  induction text generalizing before with
  | nil =>
    cases mark with
    | nil => exact absurd rfl hmark
    | cons m mark => simp [breakOn?] at h
  | cons c text ih =>
    have htext := eq_append_of_breakOn? h
    simp only [breakOn?] at h
    split at h
    · cases h
      intro hin
      exact hmark (by simpa using hin)
    · next hnone =>
      split at h
      · next b r hb =>
        cases h
        intro hin
        rcases List.infix_cons_iff.mp hin with hpre | hin
        · refine not_prefix_of_isPrefixOf?_none hnone (hpre.trans ⟨mark ++ rest, ?_⟩)
          rw [htext, List.append_assoc]
        · exact ih hb hin
      · cases h

/-- A mark that is not found does not occur. -/
theorem not_infix_of_breakOn?_none {mark text : List Char} (h : breakOn? mark text = none) :
    ¬ mark <:+: text := by
  induction text with
  | nil =>
    cases mark with
    | nil => simp [breakOn?] at h
    | cons m mark => simp
  | cons c text ih =>
    simp only [breakOn?] at h
    split at h
    · cases h
    · next hnone =>
      split at h
      · cases h
      · next hb =>
        intro hin
        rcases List.infix_cons_iff.mp hin with hpre | hin
        · exact not_prefix_of_isPrefixOf?_none hnone hpre
        · exact ih hb hin

/-! ## Letter case -/

/-- What is no capital letter has no other case. -/
theorem toLower_eq_self {c : Char} (h : c.isUpper = false) : c.toLower = c := by
  unfold Char.toLower
  rw [dif_neg (of_decide_eq_false h)]

/-- A capital letter has a small one. -/
theorem isLower_toLower {c : Char} (h : c.isUpper = true) : c.toLower.isLower = true := by
  have hrange : c.val ≥ 'A'.val ∧ c.val ≤ 'Z'.val := of_decide_eq_true h
  have hlower : c.toLower.val = c.val + 32 := by
    unfold Char.toLower
    rw [dif_pos hrange]
    rfl
  have hlow : 65 ≤ c.val.toNat := UInt32.le_iff_toNat_le.mp hrange.1
  have hhigh : c.val.toNat ≤ 90 := UInt32.le_iff_toNat_le.mp hrange.2
  have hsum : (c.val + 32).toNat = c.val.toNat + 32 := by
    rw [UInt32.toNat_add]
    exact Nat.mod_eq_of_lt (Nat.lt_of_le_of_lt (Nat.add_le_add_right hhigh 32) (by decide))
  have hsmall : 'a'.val ≤ c.toLower.val ∧ c.toLower.val ≤ 'z'.val := by
    rw [hlower, UInt32.le_iff_toNat_le, UInt32.le_iff_toNat_le, hsum]
    exact ⟨Nat.add_le_add_right hlow 32, Nat.add_le_add_right hhigh 32⟩
  exact Bool.and_eq_true_iff.mpr ⟨decide_eq_true hsmall.1, decide_eq_true hsmall.2⟩

/-- Small letters stay small. -/
theorem toLower_toLower (c : Char) : c.toLower.toLower = c.toLower := by
  cases hupper : c.isUpper with
  | false => rw [toLower_eq_self hupper, toLower_eq_self hupper]
  | true =>
    refine toLower_eq_self (Bool.eq_false_iff.mpr fun hagain => ?_)
    have hlow : 'a'.val ≤ c.toLower.val :=
      of_decide_eq_true (Bool.and_eq_true_iff.mp (isLower_toLower hupper)).1
    have hhigh : c.toLower.val ≤ 'Z'.val := (of_decide_eq_true hagain).2
    exact absurd (UInt32.le_trans hlow hhigh) (by decide)

/-- The small one of a letter is a letter. -/
theorem isAlpha_toLower {c : Char} (h : c.isAlpha = true) : c.toLower.isAlpha = true := by
  cases hupper : c.isUpper with
  | false => rwa [toLower_eq_self hupper]
  | true => exact Bool.or_eq_true_iff.mpr (.inr (isLower_toLower hupper))

/-! ## Words, letter case aside -/

/-- A match is not changed by what follows it. -/
theorem afterIgnoringCase?_append_of_some {word text after : List Char}
    (h : afterIgnoringCase? word text = some after) (rest : List Char) :
    afterIgnoringCase? word (text ++ rest) = some (after ++ rest) := by
  induction word generalizing text with
  | nil =>
    cases h
    rfl
  | cons w word ih =>
    cases text with
    | nil => cases h
    | cons c text =>
      simp only [afterIgnoringCase?, List.cons_append] at h ⊢
      split at h
      · next hc => rw [if_pos hc, ih h]
      · cases h

/-- A word of letters is not found across a character that is no letter. -/
theorem afterIgnoringCase?_append_of_none {word text : List Char} {stop : Char}
    (hword : ∀ c ∈ word, c.toLower.isAlpha = true) (hstop : stop.toLower.isAlpha = false)
    (h : afterIgnoringCase? word text = none) (rest : List Char) :
    afterIgnoringCase? word (text ++ stop :: rest) = none := by
  induction word generalizing text with
  | nil => cases h
  | cons w word ih =>
    cases text with
    | nil =>
      have hw : ¬ (w.toLower == stop.toLower) = true := by
        rw [beq_iff_eq]
        intro heq
        have := hword w (by simp)
        rw [heq, hstop] at this
        cases this
      rw [List.nil_append, afterIgnoringCase?, if_neg hw]
    | cons c text =>
      simp only [afterIgnoringCase?, List.cons_append] at h ⊢
      split at h
      · next hc => rw [if_pos hc, ih (fun d hd => hword d (by simp [hd])) h]
      · next hc => rw [if_neg hc]

/-- What is found is the word, up to letter case. -/
theorem eq_append_of_afterIgnoringCase? {word text after : List Char}
    (h : afterIgnoringCase? word text = some after) :
    ∃ found, text = found ++ after ∧ found.map Char.toLower = word.map Char.toLower := by
  induction word generalizing text with
  | nil =>
    cases h
    exact ⟨[], rfl, rfl⟩
  | cons w word ih =>
    cases text with
    | nil => cases h
    | cons c text =>
      simp only [afterIgnoringCase?] at h
      split at h
      · next hc =>
        obtain ⟨found, rfl, hfound⟩ := ih h
        refine ⟨c :: found, rfl, ?_⟩
        rw [List.map_cons, List.map_cons, hfound, beq_iff_eq.mp hc]
      · cases h

theorem afterIgnoringCase?_self (word rest : List Char) :
    afterIgnoringCase? word (word ++ rest) = some rest := by
  induction word with
  | nil => rfl
  | cons w word ih => simp [afterIgnoringCase?, ih]

end HtmlMinify.Text
