import HtmlMinify.Proofs.AttributeRules

/-!
# Texts that collapse alike

Collapsing takes a text to a form that tells three things about it: its words, and whether whitespace
stands before the first and after the last of them. Texts that agree in these collapse to the same
text, and others do not.

The scan carries a flag for whether it is inside whitespace. Between two texts the flag is what the
end of the first one leaves (`Text.collapseFrom_append`). A collapsed text leaves the same flag as the
text itself, so that it does not matter which of the two were collapsed before they were joined.

## Main statements

* `Text.words_collapse`, `Text.startsWithSpace_collapse`, `Text.endsWithSpace_collapse`: what
  collapsing keeps.
* `Text.collapse_eq_spaced`: a collapsed text, written out from words and gaps.
* `Text.collapse_append`: texts may be collapsed before they are joined.
* `Text.collapse_canonical`: the form tells words and gaps, and nothing else.
-/

namespace HtmlMinify.Text

/-- Whitespace stands at the start. -/
def startsWithSpace (s : String) : Bool :=
  s.toList.head?.any isSpace

/-- Whitespace stands at the end. -/
def endsWithSpace (s : String) : Bool :=
  s.toList.getLast?.any isSpace

/-- Words with a blank between each two, and one before and after them where there is a gap. Without
words the gap after them is that before them. -/
def spaced (before : Bool) (ws : List String) (after : Bool) : String :=
  (if before then " " else "") ++ " ".intercalate ws ++ if after && !ws.isEmpty then " " else ""

theorem isSpace_blank : isSpace ' ' = true := by decide

/-! ## Words and gaps -/

/-- Collapsing leaves the words of a text. -/
theorem wordsOf_collapseFrom (inRun : Bool) (cs : List Char) :
    wordsOf (collapseFrom inRun cs) = wordsOf cs := by
  induction cs generalizing inRun with
  | nil => rfl
  | cons c cs ih =>
    cases hc : isSpace c with
    | true =>
      rw [wordsOf_space_cons hc]
      cases inRun with
      | true => rw [collapseFrom_true_cons hc, ih]
      | false => rw [collapseFrom_false_cons hc, wordsOf_space_cons isSpace_blank, ih]
    | false =>
      rw [collapseFrom_cons hc]
      -- Whether the word goes on shows in the next character, which stays or becomes a blank.
      cases cs with
      | nil => rfl
      | cons d cs =>
        have hrest := ih false
        cases hd : isSpace d with
        | true =>
          rw [collapseFrom_false_cons hd] at hrest ⊢
          rw [wordsOf_cons_space hc isSpace_blank, wordsOf_cons_space hc hd, hrest]
        | false =>
          rw [collapseFrom_cons hd] at hrest ⊢
          rw [wordsOf_cons_cons hc hd, wordsOf_cons_cons hc hd, hrest]

/-- Collapsing leaves whitespace at the start of a text, or none. -/
theorem any_head?_collapseFrom (cs : List Char) :
    (collapseFrom false cs).head?.any isSpace = cs.head?.any isSpace := by
  cases cs with
  | nil => rfl
  | cons c cs =>
    cases hc : isSpace c with
    | true =>
      rw [collapseFrom_false_cons hc, List.head?_cons, List.head?_cons, Option.any_some,
        Option.any_some, isSpace_blank, hc]
    | false => rw [collapseFrom_cons hc, List.head?_cons, List.head?_cons]

theorem elim_getLast? (cs : List Char) :
    cs.getLast?.elim false isSpace = cs.getLast?.any isSpace := by
  cases cs.getLast? <;> rfl

/-- Collapsing leaves whitespace at the end of a text, or none. -/
theorem any_getLast?_collapseFrom (cs : List Char) :
    (collapseFrom false cs).getLast?.any isSpace = cs.getLast?.any isSpace := by
  induction cs using List.reverseRecOn with
  | nil => rfl
  | append_singleton cs c ih =>
    rw [collapseFrom_append, elim_getLast?, List.getLast?_concat, Option.any_some]
    cases hc : isSpace c with
    | false => rw [collapseFrom_cons hc, collapseFrom, List.getLast?_concat, Option.any_some, hc]
    | true =>
      cases hflag : cs.getLast?.any isSpace with
      | false =>
        rw [collapseFrom_false_cons hc, collapseFrom, List.getLast?_concat, Option.any_some,
          isSpace_blank]
      | true =>
        -- The last character is left out, and the one before it is whitespace, too.
        rw [collapseFrom_true_cons hc, collapseFrom, List.append_nil, ih, hflag]

/-- **Collapsing neither joins nor splits words.** -/
theorem words_collapse (s : String) : words (collapse s) = words s := by
  rw [words, collapse, String.toList_ofList, wordsOf_collapseFrom, words]

/-- A collapsed string begins with whitespace if it did before. -/
theorem startsWithSpace_collapse (s : String) :
    startsWithSpace (collapse s) = startsWithSpace s := by
  rw [startsWithSpace, collapse, String.toList_ofList, any_head?_collapseFrom, startsWithSpace]

/-- A collapsed string ends with whitespace if it did before. -/
theorem endsWithSpace_collapse (s : String) : endsWithSpace (collapse s) = endsWithSpace s := by
  rw [endsWithSpace, collapse, String.toList_ofList, any_getLast?_collapseFrom, endsWithSpace]

/-! ## Collapsed texts written out -/

/-- Outside whitespace a gap at the start is written as a blank; the rest goes on as if inside. -/
theorem collapseFrom_false (cs : List Char) :
    collapseFrom false cs =
      (if cs.head?.any isSpace then [' '] else []) ++ collapseFrom true cs := by
  cases cs with
  | nil => rfl
  | cons c cs =>
    rw [List.head?_cons, Option.any_some]
    cases hc : isSpace c with
    | true =>
      rw [collapseFrom_false_cons hc, collapseFrom_true_cons hc, if_pos rfl, List.singleton_append]
    | false =>
      rw [collapseFrom_cons hc, collapseFrom_cons hc, if_neg Bool.false_ne_true, List.nil_append]

/-- A character in front of the first word is in front of all of them. -/
theorem intercalate_extendWord (c : Char) {ws : List (List Char)} (h : ws ≠ []) :
    [' '].intercalate (extendWord c ws) = c :: [' '].intercalate ws := by
  match ws with
  | [] => exact absurd rfl h
  | [w] => rw [extendWord, List.intercalate_singleton, List.intercalate_singleton]
  | w :: v :: ws =>
    rw [extendWord, List.intercalate_cons_cons, List.intercalate_cons_cons, List.cons_append,
      List.cons_append]

/-- Inside whitespace the words are written with blanks between them, and a blank for the gap at the
end. -/
theorem collapseFrom_true (cs : List Char) :
    collapseFrom true cs = [' '].intercalate (wordsOf cs) ++
      if cs.getLast?.any isSpace && !(wordsOf cs).isEmpty then [' '] else [] := by
  induction cs with
  | nil => rfl
  | cons c cs ih =>
    cases hc : isSpace c with
    | true =>
      rw [collapseFrom_true_cons hc, wordsOf_space_cons hc, ih]
      cases cs with
      | nil => simp [wordsOf]
      | cons d cs => rw [List.getLast?_cons_cons]
    | false =>
      rw [collapseFrom_cons hc, collapseFrom_false, ih]
      cases cs with
      | nil => simp [wordsOf, hc]
      | cons d cs =>
        rw [List.getLast?_cons_cons, List.head?_cons, Option.any_some]
        cases hd : isSpace d with
        | true =>
          rw [wordsOf_cons_space hc hd, if_pos rfl]
          cases hwords : wordsOf (d :: cs) with
          | nil =>
            have hall := wordsOf_eq_nil_iff.mp hwords
            have hlast : (d :: cs).getLast?.any isSpace = true := by
              rw [List.getLast?_eq_some_getLast (List.cons_ne_nil d cs), Option.any_some]
              exact List.all_eq_true.mp hall _ (List.getLast_mem _)
            rw [hlast]
            rfl
          | cons w ws =>
            rw [List.intercalate_cons_cons, List.append_assoc, List.append_assoc]
            rfl
        | false =>
          have hne := wordsOf_ne_nil hd cs
          rw [wordsOf_cons_cons hc hd, intercalate_extendWord c hne, if_neg Bool.false_ne_true,
            List.nil_append]
          cases hwords : wordsOf (d :: cs) with
          | nil => exact absurd hwords hne
          | cons w ws => rfl

/-- **A collapsed text is written out from its words and gaps.** -/
theorem collapse_eq_spaced (s : String) :
    collapse s = spaced (startsWithSpace s) (words s) (endsWithSpace s) := by
  have hempty : (words s).isEmpty = (wordsOf s.toList).isEmpty := List.isEmpty_map
  have hblank (gap : Bool) : (if gap then " " else "").toList = if gap then [' '] else [] := by
    cases gap <;> rfl
  apply String.toList_injective
  rw [collapse, String.toList_ofList, collapseFrom_false, collapseFrom_true, spaced,
    String.toList_append, String.toList_append, String.toList_intercalate, map_toList_words, hblank,
    hblank, hempty, List.append_assoc]
  rfl

/-! ## Seams -/

/-- A text collapses on in the same way if it was collapsed before. -/
theorem collapseFrom_collapseFrom (inRun : Bool) (cs : List Char) :
    collapseFrom inRun (collapseFrom false cs) = collapseFrom inRun cs := by
  have htwice (flag : Bool) : collapseFrom flag (collapseFrom flag cs) = collapseFrom flag cs := by
    obtain ⟨hcollapsed, hhead⟩ := isCollapsed_collapseFrom flag cs
    exact collapseFrom_of_isCollapsed hcollapsed flag hhead
  cases inRun with
  | false => exact htwice false
  | true =>
    rw [collapseFrom_false]
    split
    · rw [List.singleton_append, collapseFrom_true_cons isSpace_blank, htwice true]
    · rw [List.nil_append, htwice true]

/-- **Texts may be collapsed before they are joined.** -/
theorem collapse_append (a b : String) :
    collapse (a ++ b) = collapse (collapse a ++ collapse b) := by
  simp only [collapse, String.toList_append, String.toList_ofList]
  rw [collapseFrom_append, collapseFrom_append, elim_getLast?, elim_getLast?,
    any_getLast?_collapseFrom, collapseFrom_collapseFrom, collapseFrom_collapseFrom]

/-- **Collapsing is a canonical form** of texts with the same words and the same gaps at the ends. -/
theorem collapse_canonical (a b : String) :
    (collapse a = collapse b ↔ words a = words b ∧ startsWithSpace a = startsWithSpace b ∧
      endsWithSpace a = endsWithSpace b) ∧
    collapse a = spaced (startsWithSpace a) (words a) (endsWithSpace a) ∧
    collapse (collapse a) = collapse a ∧
    words (collapse a) = words a ∧
    startsWithSpace (collapse a) = startsWithSpace a ∧
    endsWithSpace (collapse a) = endsWithSpace a ∧
    collapse (a ++ b) = collapse (collapse a ++ collapse b) := by
  refine ⟨⟨fun h => ?_, ?_⟩, collapse_eq_spaced a, collapse_collapse a, words_collapse a,
    startsWithSpace_collapse a, endsWithSpace_collapse a, collapse_append a b⟩
  · rw [← words_collapse a, ← startsWithSpace_collapse a, ← endsWithSpace_collapse a, h,
      words_collapse, startsWithSpace_collapse, endsWithSpace_collapse]
    exact ⟨rfl, rfl, rfl⟩
  · rintro ⟨hwords, hstart, hend⟩
    rw [collapse_eq_spaced, collapse_eq_spaced, hwords, hstart, hend]

end HtmlMinify.Text
