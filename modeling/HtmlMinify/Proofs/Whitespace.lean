import HtmlMinify.Pass.Comments
import HtmlMinify.Pass.Whitespace
import HtmlMinify.Proofs.Families
import Mathlib.Data.List.Chain
import Mathlib.Data.List.DropRight

/-!
# Texts that whitespace passes leave alone

Collapsing and trimming are idempotent, a collapsed text stays so when it is trimmed, and neither
changes whether a text ends in an open character reference or goes on with one: such a text has no
whitespace at the end in question.

## Main statements

* `Text.collapseFrom_append`: how the scan goes on after a text.
* `Text.collapse_collapse`, `Text.collapse_trimStart`, `Text.collapse_trimEnd`: texts stay collapsed.
* `Whitespace.trimmed_trimmed`: trimming a text twice is trimming it once.
* `Comments.KeepsReferences`: a change of texts that keeps open references, and those of the passes.
-/

namespace HtmlMinify

namespace Text

/-! ## Collapsed texts -/

/-- Each whitespace character is a blank and none follows another. -/
def IsCollapsed (cs : List Char) : Prop :=
  (∀ c ∈ cs, isSpace c = true → c = ' ') ∧
    cs.IsChain fun a b => isSpace a = false ∨ isSpace b = false

/-- Inside whitespace further whitespace is dropped. -/
theorem collapseFrom_true_cons {c : Char} (hc : isSpace c = true) (cs : List Char) :
    collapseFrom true (c :: cs) = collapseFrom true cs := by
  rw [collapseFrom, if_pos hc, if_pos rfl]

/-- Whitespace that begins becomes one blank. -/
theorem collapseFrom_false_cons {c : Char} (hc : isSpace c = true) (cs : List Char) :
    collapseFrom false (c :: cs) = ' ' :: collapseFrom true cs := by
  rw [collapseFrom, if_pos hc, if_neg Bool.false_ne_true]

/-- What is no whitespace stays, and ends a run. -/
theorem collapseFrom_cons {c : Char} (hc : isSpace c = false) (inRun : Bool) (cs : List Char) :
    collapseFrom inRun (c :: cs) = c :: collapseFrom false cs := by
  rw [collapseFrom, hc, if_neg Bool.false_ne_true]

/-- After a text the scan goes on with what the last character says. -/
theorem collapseFrom_append (inRun : Bool) (cs ds : List Char) :
    collapseFrom inRun (cs ++ ds) =
      collapseFrom inRun cs ++ collapseFrom (cs.getLast?.elim inRun isSpace) ds := by
  induction cs generalizing inRun with
  | nil => rfl
  | cons c cs ih =>
    have hlast : (c :: cs).getLast?.elim inRun isSpace = cs.getLast?.elim (isSpace c) isSpace := by
      cases cs with
      | nil => rfl
      | cons d cs =>
        rw [List.getLast?_cons_cons, List.getLast?_cons, Option.elim_some, Option.elim_some]
    rw [List.cons_append, hlast]
    cases hc : isSpace c with
    | false => rw [collapseFrom_cons hc, collapseFrom_cons hc, ih, List.cons_append]
    | true =>
      cases inRun with
      | true => rw [collapseFrom_true_cons hc, collapseFrom_true_cons hc, ih]
      | false => rw [collapseFrom_false_cons hc, collapseFrom_false_cons hc, ih, List.cons_append]

/-- Where a character is no whitespace, what comes before it and after it collapse apart from each
other. -/
theorem collapseFrom_append_cons (inRun : Bool) (cs : List Char) {c : Char}
    (hc : isSpace c = false) (rest : List Char) :
    collapseFrom inRun (cs ++ c :: rest) = collapseFrom inRun cs ++ c :: collapseFrom false rest := by
  rw [collapseFrom_append, collapseFrom_cons hc]

/-- A text without whitespace collapses to itself. -/
theorem collapseFrom_of_forall_not {cs : List Char} (h : ∀ c ∈ cs, isSpace c = false) :
    collapseFrom false cs = cs := by
  induction cs with
  | nil => rfl
  | cons c cs ih => simp [collapseFrom, h c, ih fun d hd => h d (by simp [hd])]

/-- What a scan leaves is collapsed; inside a run it does not begin with whitespace. -/
theorem isCollapsed_collapseFrom (inRun : Bool) (cs : List Char) :
    IsCollapsed (collapseFrom inRun cs) ∧
      (inRun = true → ∀ c ∈ (collapseFrom inRun cs).head?, isSpace c = false) := by
  induction cs generalizing inRun with
  | nil => simp [collapseFrom, IsCollapsed]
  | cons c cs ih =>
    obtain ⟨⟨hblank, hchain⟩, hhead⟩ := ih true
    obtain ⟨⟨hblank', hchain'⟩, _⟩ := ih false
    rw [collapseFrom]
    by_cases hc : isSpace c = true
    · rw [if_pos hc]
      cases inRun with
      | true => exact ⟨⟨hblank, hchain⟩, hhead⟩
      | false =>
        refine ⟨⟨?_, hchain.cons fun d hd => .inr (hhead rfl d hd)⟩, by simp⟩
        intro d hd hspace
        rcases List.mem_cons.mp hd with rfl | hd
        · rfl
        · exact hblank d hd hspace
    · rw [if_neg hc]
      rw [Bool.not_eq_true] at hc
      refine ⟨⟨?_, hchain'.cons fun d _ => .inl hc⟩, by simp [hc]⟩
      intro d hd hspace
      rcases List.mem_cons.mp hd with rfl | hd
      · rw [hc] at hspace
        cases hspace
      · exact hblank' d hd hspace

/-- A collapsed text collapses to itself, if it does not go on with a run. -/
theorem collapseFrom_of_isCollapsed {cs : List Char} (h : IsCollapsed cs) (inRun : Bool)
    (hhead : inRun = true → ∀ c ∈ cs.head?, isSpace c = false) : collapseFrom inRun cs = cs := by
  induction cs generalizing inRun with
  | nil => rfl
  | cons c cs ih =>
    obtain ⟨hblank, hchain⟩ := h
    obtain ⟨hnext, hchain⟩ := List.isChain_cons.mp hchain
    have hrest : IsCollapsed cs := ⟨fun d hd => hblank d (by simp [hd]), hchain⟩
    rw [collapseFrom]
    cases hc : isSpace c with
    | true =>
      cases inRun with
      | true => simp [hc] at hhead
      | false =>
        obtain rfl := hblank c (by simp) hc
        simp only [if_true, Bool.false_eq_true, if_false]
        rw [ih hrest true fun _ d hd => (hnext d hd).resolve_left (by simp [hc])]
    | false =>
      simp only [Bool.false_eq_true, if_false]
      rw [ih hrest false (by simp)]

/-- A text that collapsing leaves as it is. -/
theorem collapse_eq_self_iff {s : String} : collapse s = s ↔ IsCollapsed s.toList := by
  constructor
  · intro h
    rw [← h, collapse, String.toList_ofList]
    exact (isCollapsed_collapseFrom false s.toList).1
  · intro h
    rw [collapse, collapseFrom_of_isCollapsed h false (by simp), String.ofList_toList]

/-- Collapsing makes no text blank, nor does it fill a blank one. -/
theorem isBlank_collapse (s : String) : isBlank (collapse s) = isBlank s := by
  have hchars : ∀ inRun cs, (collapseFrom inRun cs).all isSpace = cs.all isSpace := by
    intro inRun cs
    induction cs generalizing inRun with
    | nil => rfl
    | cons c cs ih =>
      have hblank : isSpace ' ' = true := by decide
      rw [collapseFrom]
      cases hc : isSpace c <;> cases inRun <;> simp [hc, hblank, ih]
  rw [isBlank, collapse, String.toList_ofList, hchars, isBlank]

/-- **Collapsing twice is collapsing once.** -/
theorem collapse_collapse (s : String) : collapse (collapse s) = collapse s := by
  rw [collapse_eq_self_iff, collapse, String.toList_ofList]
  exact (isCollapsed_collapseFrom false s.toList).1

/-- The end of a collapsed text is collapsed. -/
theorem IsCollapsed.of_append_right {before cs : List Char} (h : IsCollapsed (before ++ cs)) :
    IsCollapsed cs :=
  ⟨fun c hc => h.1 c (by simp [hc]), h.2.right_of_append⟩

/-- The start of a collapsed text is collapsed. -/
theorem IsCollapsed.of_append_left {cs after : List Char} (h : IsCollapsed (cs ++ after)) :
    IsCollapsed cs :=
  ⟨fun c hc => h.1 c (by simp [hc]), h.2.left_of_append⟩

/-! ## Trimmed texts -/

/-- Trimming the start of a text leaves what comes after a character that is no whitespace. -/
theorem trimStartChars_append_cons (cs : List Char) {c : Char} (hc : isSpace c = false)
    (rest : List Char) : trimStartChars (cs ++ c :: rest) = trimStartChars cs ++ c :: rest := by
  induction cs with
  | nil => simp [trimStartChars, hc]
  | cons d cs ih =>
    cases hd : isSpace d with
    | true => simpa [trimStartChars, List.dropWhile_cons, hd] using ih
    | false => simp [trimStartChars, hd]

/-- Trimming the end of a text leaves what comes before a character that is no whitespace. -/
theorem trimEndChars_append_cons (cs : List Char) {c : Char} (hc : isSpace c = false)
    (rest : List Char) : trimEndChars (cs ++ c :: rest) = cs ++ c :: trimEndChars rest := by
  have h := trimStartChars_append_cons rest.reverse hc cs.reverse
  rw [trimStartChars, trimStartChars] at h
  rw [trimEndChars, List.reverse_append, List.reverse_cons, List.append_assoc, List.singleton_append,
    h, trimEndChars, List.reverse_append, List.reverse_cons, List.reverse_reverse,
    List.append_assoc, List.singleton_append]

/-- A text is blank, or has a first character that is none of whitespace. -/
theorem all_isSpace_or_exists (cs : List Char) :
    cs.all isSpace = true ∨ ∃ before c after, cs = before ++ c :: after ∧
      before.all isSpace = true ∧ isSpace c = false := by
  induction cs with
  | nil => exact .inl rfl
  | cons c cs ih =>
    cases hc : isSpace c with
    | false => exact .inr ⟨[], c, cs, rfl, rfl, hc⟩
    | true =>
      rcases ih with hall | ⟨before, d, after, rfl, hbefore, hd⟩
      · exact .inl (by rw [List.all_cons, hc, hall]; rfl)
      · exact .inr ⟨c :: before, d, after, rfl, by rw [List.all_cons, hc, hbefore]; rfl, hd⟩

/-- Nothing is left at the start of a text of whitespace. -/
theorem trimStartChars_of_all {cs : List Char} (h : cs.all isSpace = true) :
    trimStartChars cs = [] :=
  List.dropWhile_eq_nil_iff.mpr (List.all_eq_true.mp h)

/-- Nothing is left at the end of a text of whitespace. -/
theorem trimEndChars_of_all {cs : List Char} (h : cs.all isSpace = true) :
    trimEndChars cs = [] := by
  rw [trimEndChars, List.dropWhile_eq_nil_iff.mpr, List.reverse_nil]
  simpa using h

/-- Trimming its start makes no text blank. -/
theorem isBlank_trimStart (s : String) : isBlank (trimStart s) = isBlank s := by
  rw [isBlank, isBlank, trimStart, String.toList_ofList]
  rcases all_isSpace_or_exists s.toList with h | ⟨before, c, after, hs, hbefore, hc⟩
  · rw [trimStartChars_of_all h, h]
    rfl
  · rw [hs, trimStartChars_append_cons before hc, trimStartChars_of_all hbefore]
    simp [hc]

/-- Trimming its end makes no text blank. -/
theorem isBlank_trimEnd (s : String) : isBlank (trimEnd s) = isBlank s := by
  rw [isBlank, isBlank, trimEnd, String.toList_ofList]
  rcases all_isSpace_or_exists s.toList with h | ⟨before, c, after, hs, _, hc⟩
  · rw [trimEndChars_of_all h, h]
    rfl
  · rw [hs, trimEndChars_append_cons before hc]
    simp [hc]

/-- Trimming the start of a text twice is trimming it once. -/
theorem trimStart_trimStart (s : String) : trimStart (trimStart s) = trimStart s := by
  simp only [trimStart, trimStartChars, String.toList_ofList, List.dropWhile_idempotent]

/-- Trimming the end of a text twice is trimming it once. -/
theorem trimEnd_trimEnd (s : String) : trimEnd (trimEnd s) = trimEnd s := by
  simp only [trimEnd, trimEndChars, String.toList_ofList, List.reverse_reverse,
    List.dropWhile_idempotent]

/-- Trimming the end gives a text no new start. -/
theorem trimStart_trimEnd_trimStart (s : String) :
    trimStart (trimEnd (trimStart s)) = trimEnd (trimStart s) := by
  simp only [trimStart, trimEnd, String.toList_ofList]
  rcases all_isSpace_or_exists s.toList with h | ⟨before, c, after, hs, hbefore, hc⟩
  · rw [trimStartChars_of_all h]
    rfl
  · have hend := trimEndChars_append_cons [] hc after
    rw [List.nil_append, List.nil_append] at hend
    have hstart := trimStartChars_append_cons [] hc (trimEndChars after)
    rw [List.nil_append] at hstart
    rw [hs, trimStartChars_append_cons before hc, trimStartChars_of_all hbefore, List.nil_append,
      hend, hstart]
    rfl

/-- Trimming the start of a collapsed text leaves it collapsed. -/
theorem collapse_trimStart {s : String} (h : collapse s = s) :
    collapse (trimStart s) = trimStart s := by
  rw [collapse_eq_self_iff] at h ⊢
  rw [trimStart, String.toList_ofList, trimStartChars]
  rw [← List.takeWhile_append_dropWhile (p := isSpace) (l := s.toList)] at h
  exact h.of_append_right

/-- Trimming the end of a collapsed text leaves it collapsed. -/
theorem collapse_trimEnd {s : String} (h : collapse s = s) : collapse (trimEnd s) = trimEnd s := by
  rw [collapse_eq_self_iff] at h ⊢
  rw [trimEnd, String.toList_ofList, trimEndChars]
  have hsplit := congrArg List.reverse
    (List.takeWhile_append_dropWhile (p := isSpace) (l := s.toList.reverse))
  rw [List.reverse_append, List.reverse_reverse] at hsplit
  rw [← hsplit] at h
  exact h.of_append_left

end Text

namespace Whitespace

open Text

/-- Trimming depends on the kind and the name of what is around a text. -/
theorem trimmed_congr {parent parent' : Content} {before before' after after' : Option Content}
    (hparent : parent.Alike parent')
    (hbefore : blockEdge before' parent' = blockEdge before parent)
    (hafter : blockEdge after' parent' = blockEdge after parent) (value : String) :
    trimmed parent' before' after' value = trimmed parent before after value := by
  rw [trimmed, trimmed, holdsMarkupOnly, holdsMarkupOnly, hparent.kind, hparent.isTag_eq,
    hparent.isTag_eq, hbefore, hafter]

/-- Trimming at block edges makes no text blank. -/
theorem isBlank_trimmed (parent : Content) (before after : Option Content) (value : String) :
    isBlank (trimmed parent before after value) = isBlank value := by
  rw [trimmed]
  split
  · next hempty =>
    rw [Bool.and_eq_true] at hempty
    rw [hempty.2]
    rfl
  · cases blockEdge before parent <;> cases blockEdge after parent <;>
      simp [isBlank_trimStart, isBlank_trimEnd]

/-- **Trimming a text twice is trimming it once.** -/
theorem trimmed_trimmed (parent : Content) (before after : Option Content) (value : String) :
    trimmed parent before after (trimmed parent before after value) =
      trimmed parent before after value := by
  cases hblank : holdsMarkupOnly parent && isBlank value with
  | true =>
    have hempty : trimmed parent before after value = "" := by rw [trimmed, if_pos hblank]
    rw [hempty, trimmed]
    cases holdsMarkupOnly parent <;> cases blockEdge before parent <;>
      cases blockEdge after parent <;> rfl
  | false =>
    have hnot : (holdsMarkupOnly parent && isBlank (trimmed parent before after value)) = false := by
      rw [isBlank_trimmed, hblank]
    rw [trimmed, hnot, trimmed, hblank]
    cases blockEdge before parent <;> cases blockEdge after parent <;>
      simp [trimStart_trimStart, trimEnd_trimEnd, trimStart_trimEnd_trimStart]

/-- Trimming at block edges leaves a collapsed text collapsed. -/
theorem collapse_trimmed {parent : Content} {before after : Option Content} {value : String}
    (h : collapse value = value) :
    collapse (trimmed parent before after value) = trimmed parent before after value := by
  rw [trimmed]
  split
  · rfl
  · cases blockEdge before parent <;> cases blockEdge after parent <;>
      simp [h, collapse_trimStart, collapse_trimEnd]

end Whitespace

namespace Comments

open Text

/-! ## Open references -/

/-- The characters of a reference are no whitespace. -/
theorem isSpace_eq_false_of_inReference {c : Char} (h : inReference c = true) :
    isSpace c = false := by
  by_contra hspace
  simp only [isSpace, Bool.or_eq_true, beq_iff_eq, Bool.not_eq_false] at hspace
  rcases hspace with (((rfl | rfl) | rfl) | rfl) | rfl <;> exact absurd h (by decide)

/-- A text ends in an open reference if some ampersand is followed by nothing but characters of
one. -/
theorem endsInOpenReference_iff {s : String} :
    endsInOpenReference s = true ↔
      ∃ before name, s.toList = before ++ '&' :: name ∧ ∀ c ∈ name, inReference c = true := by
  rw [endsInOpenReference, beq_iff_eq]
  constructor
  · intro h
    have hsplit := congrArg List.reverse
      (List.takeWhile_append_dropWhile (p := inReference) (l := s.toList.reverse))
    rw [List.reverse_append, List.reverse_reverse] at hsplit
    obtain ⟨rest, hrest⟩ : ∃ rest, s.toList.reverse.dropWhile inReference = '&' :: rest := by
      cases hdrop : s.toList.reverse.dropWhile inReference with
      | nil => simp [hdrop] at h
      | cons c rest =>
        rw [hdrop, List.head?_cons, Option.some.injEq] at h
        exact ⟨rest, by rw [h]⟩
    refine ⟨rest.reverse, (s.toList.reverse.takeWhile inReference).reverse, ?_, fun c hc => ?_⟩
    · rw [hrest, List.reverse_cons, List.append_assoc, List.singleton_append] at hsplit
      exact hsplit.symm
    · exact List.mem_takeWhile_imp (List.mem_reverse.mp hc)
  · rintro ⟨before, name, hs, hname⟩
    have hrun : ∀ c ∈ name.reverse, inReference c = true := by simpa using hname
    rw [hs, List.reverse_append, List.reverse_cons, List.append_assoc, List.singleton_append,
      List.dropWhile_append_of_pos hrun, List.dropWhile_cons, if_neg (by decide), List.head?_cons]

/-- A text goes on with a reference if it begins with a character of one, or with its end. -/
theorem continuesReference_iff {s : String} :
    continuesReference s = true ↔
      ∃ c rest, s.toList = c :: rest ∧ (inReference c || c == ';') = true := by
  rw [continuesReference]
  cases s.toList with
  | nil => simp
  | cons c rest => simp

/-- A character with which a reference goes on is no whitespace. -/
theorem isSpace_eq_false_of_continues {c : Char} (h : (inReference c || c == ';') = true) :
    isSpace c = false := by
  rcases (Bool.or_eq_true _ _).mp h with hin | hend
  · exact isSpace_eq_false_of_inReference hin
  · rw [beq_iff_eq] at hend
    rw [hend]
    decide

/-- A text in front of one that ends in an open reference does not close it. -/
theorem endsInOpenReference_append (s : String) {t : String} (h : endsInOpenReference t = true) :
    endsInOpenReference (s ++ t) = true := by
  obtain ⟨before, name, ht, hname⟩ := endsInOpenReference_iff.mp h
  refine endsInOpenReference_iff.mpr ⟨s.toList ++ before, name, ?_, hname⟩
  rw [String.toList_append, ht, List.append_assoc]

/-- What comes after a text that goes on with a reference does not matter. -/
theorem continuesReference_append {s : String} (h : continuesReference s = true) (t : String) :
    continuesReference (s ++ t) = true := by
  obtain ⟨c, rest, hs, hc⟩ := continuesReference_iff.mp h
  refine continuesReference_iff.mpr ⟨c, rest ++ t.toList, ?_, hc⟩
  rw [String.toList_append, hs, List.cons_append]

/-- A text that ends in an open reference is not blank. -/
theorem isBlank_of_endsInOpenReference {s : String} (h : endsInOpenReference s = true) :
    isBlank s = false := by
  obtain ⟨before, name, hs, _⟩ := endsInOpenReference_iff.mp h
  rw [isBlank, hs, List.all_append, List.all_cons, show isSpace '&' = false by decide,
    Bool.false_and, Bool.and_false]

/-- A text that goes on with a reference is not blank. -/
theorem isBlank_of_continuesReference {s : String} (h : continuesReference s = true) :
    isBlank s = false := by
  obtain ⟨c, rest, hs, hc⟩ := continuesReference_iff.mp h
  rw [isBlank, hs, List.all_cons, isSpace_eq_false_of_continues hc, Bool.false_and]

/-- The change keeps open references open, and what goes on with one. -/
structure KeepsReferences (change : String → String) : Prop where
  opens : ∀ s, endsInOpenReference s = true → endsInOpenReference (change s) = true
  goesOn : ∀ s, continuesReference s = true → continuesReference (change s) = true

/-- Collapsing neither opens nor closes a reference at the edge of a text. -/
theorem keepsReferences_collapse : KeepsReferences collapse where
  opens s h := by
    obtain ⟨before, name, hs, hname⟩ := endsInOpenReference_iff.mp h
    have hspace : ∀ c ∈ name, isSpace c = false :=
      fun c hc => isSpace_eq_false_of_inReference (hname c hc)
    refine endsInOpenReference_iff.mpr ⟨collapseFrom false before, name, ?_, hname⟩
    rw [collapse, String.toList_ofList, hs, collapseFrom_append_cons false before (by decide),
      collapseFrom_of_forall_not hspace]
  goesOn s h := by
    obtain ⟨c, rest, hs, hc⟩ := continuesReference_iff.mp h
    refine continuesReference_iff.mpr ⟨c, collapseFrom false rest, ?_, hc⟩
    rw [collapse, String.toList_ofList, hs, collapseFrom, isSpace_eq_false_of_continues hc,
      if_neg Bool.false_ne_true]

/-- Trimming the start of a text neither opens nor closes a reference at its edges. -/
theorem keepsReferences_trimStart : KeepsReferences trimStart where
  opens s h := by
    obtain ⟨before, name, hs, hname⟩ := endsInOpenReference_iff.mp h
    refine endsInOpenReference_iff.mpr ⟨trimStartChars before, name, ?_, hname⟩
    rw [trimStart, String.toList_ofList, hs, trimStartChars_append_cons before (by decide)]
  goesOn s h := by
    obtain ⟨c, rest, hs, hc⟩ := continuesReference_iff.mp h
    refine continuesReference_iff.mpr ⟨c, rest, ?_, hc⟩
    have hstart := trimStartChars_append_cons [] (isSpace_eq_false_of_continues hc) rest
    rw [trimStart, String.toList_ofList, hs]
    exact hstart

/-- Trimming the end of a text neither opens nor closes a reference at its edges. -/
theorem keepsReferences_trimEnd : KeepsReferences trimEnd where
  opens s h := by
    obtain ⟨before, name, hs, hname⟩ := endsInOpenReference_iff.mp h
    have hname' : trimEndChars name = name := by
      cases hrev : name.reverse with
      | nil => rw [List.reverse_eq_nil_iff.mp hrev]; rfl
      | cons c rest =>
        have hmem : c ∈ name := List.mem_reverse.mp (by simp [hrev])
        rw [trimEndChars, hrev, List.dropWhile_cons,
          isSpace_eq_false_of_inReference (hname c hmem), if_neg Bool.false_ne_true, ← hrev,
          List.reverse_reverse]
    refine endsInOpenReference_iff.mpr ⟨before, name, ?_, hname⟩
    rw [trimEnd, String.toList_ofList, hs, trimEndChars_append_cons before (by decide), hname']
  goesOn s h := by
    obtain ⟨c, rest, hs, hc⟩ := continuesReference_iff.mp h
    have hend := trimEndChars_append_cons [] (isSpace_eq_false_of_continues hc) rest
    refine continuesReference_iff.mpr ⟨c, trimEndChars rest, ?_, hc⟩
    rw [trimEnd, String.toList_ofList, hs]
    exact hend

/-- Trimming at block edges neither opens nor closes a reference at the edges of a text. -/
theorem keepsReferences_trimmed (parent : Content) (before after : Option Content) :
    KeepsReferences (Whitespace.trimmed parent before after) where
  opens s h := by
    rw [Whitespace.trimmed, isBlank_of_endsInOpenReference h, Bool.and_false,
      if_neg Bool.false_ne_true]
    cases Whitespace.blockEdge before parent <;> cases Whitespace.blockEdge after parent <;>
      simp [h, keepsReferences_trimStart.opens, keepsReferences_trimEnd.opens]
  goesOn s h := by
    rw [Whitespace.trimmed, isBlank_of_continuesReference h, Bool.and_false,
      if_neg Bool.false_ne_true]
    cases Whitespace.blockEdge before parent <;> cases Whitespace.blockEdge after parent <;>
      simp [h, keepsReferences_trimStart.goesOn, keepsReferences_trimEnd.goesOn]

end Comments

end HtmlMinify
