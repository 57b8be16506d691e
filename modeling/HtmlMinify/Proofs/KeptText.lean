import HtmlMinify.Proofs.Skeleton

/-!
# The text of a page

Passes lose no text but whitespace, and none at all inside elements that preserve their text. What
passes and the joining of texts do is done among siblings: texts move together, and the places of
the nodes that stay are not crossed. `Siblings.pieces` writes siblings down as characters with a hole
for each node that stays, and filling the holes with the text below these nodes gives the text of
the forest.

## Main statements

* `Siblings.retold_left`, `Siblings.pieces_join`: what passes and joining keep of the pieces of
  siblings.
* `Forest.Becomes.retells`: so they keep the text below each node that stays.
* `Settings.run_keeps_text`: a run keeps the text of a page.
-/

namespace HtmlMinify

open Text

namespace Text

/-- The characters that are no whitespace. -/
def solid (cs : List Char) : List Char :=
  cs.filter (!isSpace ·)

/-- Whitespace at the start of a text is none of its characters that count. -/
theorem solid_cons (c : Char) (cs : List Char) :
    solid (c :: cs) = if isSpace c then solid cs else c :: solid cs := by
  rw [solid, List.filter_cons, solid]
  cases isSpace c <;> rfl

/-- The characters of two texts that count come one after the other. -/
theorem solid_append (cs ds : List Char) : solid (cs ++ ds) = solid cs ++ solid ds :=
  List.filter_append ..

/-- Whitespace has no characters that count. -/
theorem solid_of_all {cs : List Char} (h : cs.all isSpace = true) : solid cs = [] := by
  refine List.filter_eq_nil_iff.mpr fun c hc => ?_
  rw [List.all_eq_true.mp h c hc]
  exact Bool.false_ne_true

/-- Collapsing drops no character that counts, whether it begins in a run or not. -/
theorem solid_collapseFrom (inRun : Bool) (cs : List Char) :
    solid (collapseFrom inRun cs) = solid cs := by
  induction cs generalizing inRun with
  | nil => rfl
  | cons c cs ih =>
    rw [collapseFrom, solid_cons]
    cases hc : isSpace c with
    | false => rw [if_neg Bool.false_ne_true, solid_cons, hc, ih]
    | true =>
      have hspace : isSpace ' ' = true := by decide
      rw [if_pos rfl]
      cases inRun with
      | true => exact ih true
      | false =>
        change solid (' ' :: collapseFrom true cs) = _
        rw [solid_cons, hspace, if_pos rfl, ih, if_pos rfl]

/-- **Collapsing keeps all characters that count.** -/
theorem solid_collapse (s : String) : solid (collapse s).toList = solid s.toList := by
  rw [collapse, String.toList_ofList, solid_collapseFrom]

/-- Trimming the start of a text keeps all characters that count. -/
theorem solid_trimStartChars (cs : List Char) : solid (trimStartChars cs) = solid cs := by
  conv => rhs; rw [← List.takeWhile_append_dropWhile (p := isSpace) (l := cs)]
  rw [solid_append, solid_of_all (List.all_takeWhile ..), List.nil_append, trimStartChars]

/-- Trimming its end does, too. -/
theorem solid_trimEndChars (cs : List Char) : solid (trimEndChars cs) = solid cs := by
  have h := solid_trimStartChars cs.reverse
  rw [solid, solid, List.filter_reverse] at h
  rw [trimEndChars, solid, List.filter_reverse]
  rw [trimStartChars] at h
  rw [h, List.reverse_reverse, solid]

end Text

/-- **Trimming at block edges keeps all characters that count.** -/
theorem Whitespace.solid_trimmed (parent : Content) (before after : Option Content)
    (value : String) : solid (trimmed parent before after value).toList = solid value.toList := by
  have hstart : ∀ s : String, solid (trimStart s).toList = solid s.toList := by
    intro s
    rw [trimStart, String.toList_ofList, solid_trimStartChars]
  have hend : ∀ s : String, solid (trimEnd s).toList = solid s.toList := by
    intro s
    rw [trimEnd, String.toList_ofList, solid_trimEndChars]
  rw [trimmed]
  split
  · next hblank =>
    rw [Bool.and_eq_true] at hblank
    rw [solid_of_all hblank.2]
    rfl
  · cases blockEdge before parent <;> cases blockEdge after parent <;> simp [hstart, hend]

/-! ## Siblings in pieces -/

namespace Siblings

/-- The characters of a text; a hole for any other node that stays. -/
def piece (c : Content) : List (Option Char) :=
  if c.isText then c.value.toList.map some else if c.mayGo then [] else [none]

/-- Siblings as characters and holes. -/
def pieces (l : List Content) : List (Option Char) :=
  l.flatMap piece

/-- The holes, and the characters that are no whitespace. -/
def solidPieces (ps : List (Option Char)) : List (Option Char) :=
  ps.filter (·.all (!isSpace ·))

/-- What siblings say begins with what the first one says. -/
theorem pieces_cons (c : Content) (l : List Content) : pieces (c :: l) = piece c ++ pieces l :=
  List.flatMap_cons ..

/-- What two lists of siblings say comes one after the other. -/
theorem pieces_append (l l' : List Content) : pieces (l ++ l') = pieces l ++ pieces l' :=
  List.flatMap_append ..

/-- A text says its characters. -/
theorem piece_of_isText {c : Content} (h : c.isText = true) :
    piece c = c.value.toList.map some :=
  if_pos h

/-- Characters that are said are squeezed as texts are. -/
theorem solidPieces_map_some (cs : List Char) :
    solidPieces (cs.map some) = (solid cs).map some := by
  rw [solidPieces, List.filter_map, solid]
  rfl

/-- What is said in two parts is squeezed part by part. -/
theorem solidPieces_append (ps ps' : List (Option Char)) :
    solidPieces (ps ++ ps') = solidPieces ps ++ solidPieces ps' :=
  List.filter_append ..

/-- Joining texts keeps the pieces. -/
theorem pieces_join {open? : Option Content} (hopen : ∀ t ∈ open?, t.isText = true)
    (l : List Content) : pieces (join open? l) = pieces (open?.toList ++ l) := by
  induction l generalizing open? with
  | nil => rw [join, List.append_nil]
  | cons c l ih =>
    rw [join]
    cases hc : c.isText with
    | false =>
      rw [Bool.not_false, if_pos rfl, pieces_append, pieces_append, pieces_cons, pieces_cons,
        ih (by simp)]
      rfl
    | true =>
      rw [Bool.not_true, if_neg Bool.false_ne_true]
      split
      · next hempty =>
        have hnone : piece c = [] := by
          rw [piece_of_isText hc, String.isEmpty_iff.mp hempty]
          rfl
        rw [ih hopen, pieces_append, pieces_append, pieces_cons, hnone, List.nil_append]
      · rw [ih fun t ht => (Option.some.inj ht) ▸ isText_joinTo hopen hc]
        cases open? with
        | none => rfl
        | some first =>
          have hfirst : first.isText = true := hopen first rfl
          have hboth : piece (joinTo (some first) c) = piece first ++ piece c := by
            rw [piece_of_isText (isText_joinTo hopen hc), piece_of_isText hfirst,
              piece_of_isText hc, joinTo, String.toList_append, List.map_append]
          simp only [Option.toList_some, List.singleton_append, pieces_cons, hboth,
            List.append_assoc]

/-- **Removing comments keeps all that siblings say**, for they say nothing. -/
theorem pieces_kept (b : Bool) (l : List Content) : pieces (Comments.kept b l) = pieces l := by
  induction l generalizing b with
  | nil => rfl
  | cons c l ih =>
    rw [Comments.kept]
    split
    · rw [pieces_cons, pieces_cons, ih]
    · next htext =>
      split
      · rw [pieces_cons, pieces_cons, ih]
      · next hstays =>
        have hgoes : c.mayGo = true := Comments.mayGo_of_isRemovable (by simpa using hstays)
        split
        · rw [pieces_cons, pieces_cons, ih]
        · rw [ih, pieces_cons, piece, if_neg htext, if_pos hgoes, List.nil_append]

/-- A node of the same kind and name, and with the same value, is the same piece. -/
theorem piece_congr {c c' : Content} (halike : c.Alike c') (hvalue : c'.value = c.value) :
    piece c' = piece c := by
  rw [piece, halike.isText_eq, hvalue, halike.mayGo_eq, piece]

/-- A node other than a text is the same piece whatever its value. -/
theorem solidPieces_piece_congr {c c' : Content} (halike : c.Alike c')
    (hvalue : c.isText = true → solid c'.value.toList = solid c.value.toList) :
    solidPieces (piece c') = solidPieces (piece c) := by
  cases hc : c.isText with
  | true =>
    rw [piece_of_isText hc, piece_of_isText (halike.isText_eq.trans hc), solidPieces_map_some,
      solidPieces_map_some, hvalue hc]
  | false =>
    rw [piece, halike.isText_eq, halike.mayGo_eq, piece, hc]
    rfl

/-- Siblings that are changed one by one say the same, whitespace aside, if each of them does. -/
theorem solidPieces_map {g : Content → Content} {l : List Content}
    (h : ∀ c ∈ l, solidPieces (piece (g c)) = solidPieces (piece c)) :
    solidPieces (pieces (l.map g)) = solidPieces (pieces l) := by
  induction l with
  | nil => rfl
  | cons c l ih =>
    rw [List.map_cons, pieces_cons, pieces_cons, solidPieces_append, solidPieces_append,
      h c List.mem_cons_self, ih fun d hd => h d (List.mem_cons_of_mem _ hd)]

/-- Siblings that are trimmed at block edges say the same, whitespace aside. -/
theorem solidPieces_trimmedSiblings (parent : Content) (before : Option Content)
    (l : List Content) :
    solidPieces (pieces (Whitespace.trimmedSiblings parent before l)) =
      solidPieces (pieces l) := by
  induction l generalizing before with
  | nil => rfl
  | cons c l ih =>
    rw [Whitespace.trimmedSiblings, pieces_cons, pieces_cons, solidPieces_append,
      solidPieces_append, ih]
    congr 1
    split
    · exact solidPieces_piece_congr ⟨rfl, rfl⟩ fun _ => Whitespace.solid_trimmed ..
    · rfl

/-- Siblings without the blank texts among them say the same, whitespace aside. -/
theorem solidPieces_filter {l : List Content} :
    solidPieces (pieces (l.filter (!·.isBlankText))) = solidPieces (pieces l) := by
  induction l with
  | nil => rfl
  | cons c l ih =>
    rw [List.filter_cons, pieces_cons, solidPieces_append]
    cases hblank : c.isBlankText with
    | false => rw [Bool.not_false, if_pos rfl, pieces_cons, solidPieces_append, ih]
    | true =>
      rw [Content.isBlankText, Bool.and_eq_true] at hblank
      rw [Bool.not_true, if_neg Bool.false_ne_true, ih, piece_of_isText hblank.1,
        solidPieces_map_some, solid_of_all hblank.2]
      rfl

/-- Text that was kept: exactly where it is not free, but for whitespace where it is. -/
structure Retold {α : Type} (squeeze : List α → List α) (free : Bool) (l l' : List α) : Prop where
  squeezed : squeeze l' = squeeze l
  exact : free = false → l' = l

/-- **Passes keep the pieces of siblings.** -/
theorem retold_left (w : Pass.Work) (fam : Family) :
    Retold solidPieces fam.free (pieces fam.contents) (pieces (w.left fam)) := by
  have hsame : ∀ {ps : List (Option Char)}, ps = pieces fam.contents →
      Retold solidPieces fam.free (pieces fam.contents) ps := by
    rintro _ rfl
    exact ⟨rfl, fun _ => rfl⟩
  have hfree : ∀ {l : List Content}, solidPieces (pieces l) = solidPieces (pieces fam.contents) →
      Retold solidPieces fam.free (pieces fam.contents)
        (pieces (if fam.free then l else fam.contents)) := by
    intro l hl
    cases fam.free with
    | true => exact ⟨hl, by simp⟩
    | false => exact ⟨rfl, fun _ => rfl⟩
  cases w with
  | comments => exact hsame (pieces_kept false fam.contents)
  | collapse =>
    refine hfree (solidPieces_map fun c _ => ?_)
    refine solidPieces_piece_congr (Whitespace.alike_collapsed c) fun hc => ?_
    rw [Whitespace.collapsed, if_pos hc]
    exact solid_collapse c.value
  | trim => exact hfree (solidPieces_trimmedSiblings ..)
  | blanks => exact hfree solidPieces_filter
  | rule r =>
    refine hsame ?_
    rw [Pass.Work.left, Document.ruledIn, pieces, List.flatMap_map, pieces]
    refine List.flatMap_congr fun c _ => piece_congr (Document.alike_ruled r.run c) ?_
    rw [Document.ruled]
    split <;> rfl
  | nothing => exact hsame rfl

/-- Pieces with text in their holes. -/
def fill : List (Option Char) → List (List Char) → List Char
  | [], _ => []
  | some c :: ps, ts => c :: fill ps ts
  | none :: ps, [] => fill ps []
  | none :: ps, t :: ts => t ++ fill ps ts

/-- Characters come before whatever fills the gaps after them. -/
theorem fill_map_some_append (cs : List Char) (ps : List (Option Char)) (ts : List (List Char)) :
    fill (cs.map some ++ ps) ts = cs ++ fill ps ts := by
  induction cs with
  | nil => rfl
  | cons c cs ih => rw [List.map_cons, List.cons_append, fill, ih, List.cons_append]

/-- Squeezing a text with gaps squeezes it and what fills the gaps. -/
theorem solid_fill (ps : List (Option Char)) (ts : List (List Char)) :
    solid (fill ps ts) = fill (solidPieces ps) (ts.map solid) := by
  induction ps generalizing ts with
  | nil => rfl
  | cons p ps ih =>
    rw [solidPieces, List.filter_cons]
    cases p with
    | some c =>
      rw [fill, solid_cons, ih, Option.all_some]
      cases isSpace c <;> rfl
    | none =>
      rw [Option.all_none, if_pos rfl]
      cases ts with
      | nil => exact ih []
      | cons t ts => rw [fill, solid_append, ih, List.map_cons, fill, solidPieces]

/-- What may be retold where text counts as written may be retold elsewhere. -/
theorem Retold.mono {α : Type} {squeeze : List α → List α} {free free' : Bool} {l l' : List α}
    (h : Retold squeeze free l l') (hfree : free = true → free' = true) :
    Retold squeeze free' l l' :=
  ⟨h.squeezed, fun hfalse => h.exact (by cases free <;> simp_all)⟩

theorem Retold.trans {α : Type} {squeeze : List α → List α} {free : Bool} {l l' l'' : List α}
    (h : Retold squeeze free l l') (h' : Retold squeeze free l' l'') :
    Retold squeeze free l l'' :=
  ⟨h'.squeezed.trans h.squeezed, fun hfree => (h'.exact hfree).trans (h.exact hfree)⟩

/-- A text with gaps is retold if it is, and so is what fills its gaps. -/
theorem Retold.fill {free : Bool} {ps ps' : List (Option Char)} {ts ts' : List (List Char)}
    (hps : Retold solidPieces free ps ps') (hts : List.Forall₂ (Retold solid free) ts ts') :
    Retold solid free (fill ps ts) (fill ps' ts') where
  squeezed := by
    have hsolid : ts'.map solid = ts.map solid := by
      induction hts with
      | nil => rfl
      | cons h _ ih => rw [List.map_cons, List.map_cons, h.squeezed, ih]
    rw [solid_fill, solid_fill, hps.squeezed, hsolid]
  exact hfree := by
    have hexact : ts' = ts := by
      induction hts with
      | nil => rfl
      | cons h _ ih => rw [h.exact hfree, ih]
    rw [hps.exact hfree, hexact]

end Siblings

/-! ## The text of a forest -/

namespace Forest

open Siblings

/-- The characters of all texts, in document order. -/
def text (f : Forest Content) : List Char :=
  (f.toList.filter (·.isText)).flatMap (·.value.toList)

/-- The text of a forest is that of its first node, that below it, and that of the rest. -/
theorem text_node (c : Content) (children siblings : Forest Content) :
    (node c children siblings).text =
      (if c.isText then c.value.toList else []) ++ (children.text ++ siblings.text) := by
  rw [text, toList, List.filter_cons, List.filter_append]
  split
  · rw [List.flatMap_cons, List.flatMap_append, text, text]
  · rw [List.flatMap_append, text, text, List.nil_append]

/-- The text below each root that stays. -/
def holeTexts : NumberedForest → List (List Char)
  | nil => []
  | node (_, c) children siblings =>
    if c.mayGo then siblings.holeTexts else children.contents.text :: siblings.holeTexts

/-- The text of a forest is what its roots are with the text below them. -/
theorem text_eq_fill {free : Bool} {f : NumberedForest}
    (h : ∀ fam ∈ f.families free, fam.Sound) :
    f.contents.text = fill (pieces (f.roots.map (·.2))) f.holeTexts := by
  induction f generalizing free with
  | nil => rfl
  | node label children siblings _ ih =>
    obtain ⟨id, c⟩ := label
    rw [families] at h
    have hsiblings := ih fun fam hfam =>
      h fam (mem_of_mem_beside hfam)
    rw [contents_node, text_node, roots, List.map_cons, pieces_cons, holeTexts, hsiblings]
    cases hgoes : c.mayGo with
    | false =>
      have htext : c.isText = false := (Bool.or_eq_false_iff.mp hgoes).1
      rw [piece, htext, hgoes]
      rfl
    | true =>
      rw [eq_nil_of_sound (h _ List.mem_cons_self) (Content.isLeaf_of_mayGo hgoes), if_pos rfl, piece,
        hgoes, if_pos rfl]
      cases c.isText with
      | true =>
        rw [if_pos rfl, if_pos rfl, fill_map_some_append]
        rfl
      | false => rfl

/-- A node of a forest with the forest below it. -/
inductive Has : NumberedForest → NodeId → Content → NumberedForest → Prop where
  | here {id : NodeId} {c : Content} {children siblings : NumberedForest} :
    Has (node (id, c) children siblings) id c children
  | inside {other id : NodeId} {d c : Content} {children siblings f : NumberedForest} :
    Has children id c f → Has (node (other, d) children siblings) id c f
  | after {other id : NodeId} {d c : Content} {children siblings f : NumberedForest} :
    Has siblings id c f → Has (node (other, d) children siblings) id c f

/-- Every id of a forest belongs to a node with something below it. -/
theorem exists_has_of_mem {f : NumberedForest} {id : NodeId} (h : id ∈ f.allIds) :
    ∃ c below, f.Has id c below := by
  induction f with
  | nil => cases h
  | node label children siblings ihc ihs =>
    obtain ⟨id', c⟩ := label
    rw [allIds_node, List.mem_cons, List.mem_append] at h
    rcases h with rfl | h | h
    · exact ⟨c, children, .here⟩
    · obtain ⟨c, below, hhas⟩ := ihc h
      exact ⟨c, below, .inside hhas⟩
    · obtain ⟨c, below, hhas⟩ := ihs h
      exact ⟨c, below, .after hhas⟩

/-- A node of a forest has one of its ids. -/
theorem Has.mem_allIds {f below : NumberedForest} {id : NodeId} {c : Content}
    (h : f.Has id c below) : id ∈ f.allIds := by
  induction h with
  | here => simp
  | inside _ ih => simp [ih]
  | after _ ih => simp [ih]

/-- What is below a node has fewer levels. -/
theorem Has.levels_le {f below : NumberedForest} {id : NodeId} {c : Content}
    (h : f.Has id c below) : below.levels + 1 ≤ f.levels := by
  induction h with
  | here => exact Nat.le_max_left ..
  | inside _ ih =>
    rw [levels]
    omega
  | after _ ih => exact Nat.le_trans ih (Nat.le_max_right ..)

/-- The text below each node that stays is kept. -/
def Retells (free : Bool) (f f' : NumberedForest) : Prop :=
  ∀ id c below, f.Has id c below → c.mayGo = false → ∃ c' below', f'.Has id c' below' ∧
    c.Alike c' ∧ Retold solid (free && !c.preservesText) below.contents.text below'.contents.text

/-- **What passes leave of a forest tells the same text**, given what they keep of siblings. -/
theorem Becomes.retells {sorts free : Bool} {Left : Family → List (NodeId × Content) → Prop}
    {f f' : NumberedForest} (h : f.Becomes sorts Left free f')
    (hleft : ∀ fam left, Left fam left →
      Retold solidPieces fam.free (pieces fam.contents) (pieces (left.map (·.2))))
    (hsound : ∀ fam ∈ f.families free, fam.Sound)
    (hsound' : ∀ fam ∈ f'.families free, fam.Sound) :
    List.Forall₂ (Retold solid free) f.holeTexts f'.holeTexts ∧ Retells free f f' := by
  induction h with
  | nil =>
    refine ⟨.nil, fun id c below hhas => ?_⟩
    cases hhas
  | @drop free id c children siblings after hgoes _ ih =>
    rw [families] at hsound
    have hbeside := ih (fun fam hfam =>
      hsound fam (mem_of_mem_beside hfam)) hsound'
    rw [holeTexts, if_pos hgoes]
    refine ⟨hbeside.1, fun id' c' below hhas hstays => ?_⟩
    cases hhas with
    | here => exact absurd hgoes (by simp [hstays])
    | inside hhas =>
      rw [eq_nil_of_sound (hsound _ List.mem_cons_self) (Content.isLeaf_of_mayGo hgoes)] at hhas
      cases hhas
    | after hhas => exact hbeside.2 id' c' below hhas hstays
  | @keep free id c c' children children' siblings siblings' hedited hhere _ _ ihc ihs =>
    rw [families] at hsound hsound'
    rw [hedited.preservesText_eq] at hsound'
    have hsoundBelow := fun fam hfam =>
      hsound fam (mem_of_mem_below hfam)
    have hsoundBelow' := fun fam hfam =>
      hsound' fam (mem_of_mem_below hfam)
    have hbelow := ihc hsoundBelow hsoundBelow'
    have hbeside := ihs
      (fun fam hfam => hsound fam (mem_of_mem_beside hfam))
      (fun fam hfam => hsound' fam (mem_of_mem_beside hfam))
    have htext : Retold solid (free && !c.preservesText) children.contents.text
        children'.contents.text := by
      -- The text below is that of the siblings, with the texts of their children in its holes.
      rw [text_eq_fill hsoundBelow, text_eq_fill hsoundBelow']
      exact (hleft _ _ hhere).fill hbelow.1
    constructor
    · rw [holeTexts, holeTexts, hedited.mayGo_eq]
      split
      · exact hbeside.1
      · exact .cons (htext.mono (by simp +contextual)) hbeside.1
    · intro id' d below hhas hstays
      cases hhas with
      | here => exact ⟨c', children', .here, hedited.toAlike, htext⟩
      | inside hhas =>
        obtain ⟨d', below', hhas', halike, hretold⟩ := hbelow.2 id' d below hhas hstays
        exact ⟨d', below', .inside hhas', halike, hretold.mono (by simp +contextual)⟩
      | after hhas =>
        obtain ⟨d', below', hhas', halike, hretold⟩ := hbeside.2 id' d below hhas hstays
        exact ⟨d', below', .after hhas', halike, hretold⟩

theorem Retells.refl (free : Bool) (f : NumberedForest) : Retells free f f :=
  fun _ c below hhas _ => ⟨c, below, hhas, .refl c, rfl, fun _ => rfl⟩

theorem Retells.trans {free : Bool} {f f' f'' : NumberedForest} (h : Retells free f f')
    (h' : Retells free f' f'') : Retells free f f'' := by
  intro id c below hhas hstays
  obtain ⟨c', below', hhas', halike, hretold⟩ := h id c below hhas hstays
  obtain ⟨c'', below'', hhas'', halike', hretold'⟩ :=
    h' id c' below' hhas' (halike.mayGo_eq.trans hstays)
  rw [halike.preservesText_eq] at hretold'
  exact ⟨c'', below'', hhas'', halike.trans halike', hretold.trans hretold'⟩

end Forest

/-! ## Runs -/

namespace Document

open Siblings Pass

variable {doc : Document} {root : NodeId} {f f' : NumberedForest}

/-- **A step retells a page**: it keeps the text of every node that it keeps, whitespace aside, and
exactly where text counts as written. -/
theorem Step.retells {w : Work} (h : Step w root f f') :
    Forest.Retells true (.node (root, .document) f .nil) (.node (root, .document) f' .nil) := by
  refine (h.turns.retells (fun fam left hleaves => ?_) h.before.sound h.after.sound).2
  rw [Family.Leaves] at hleaves
  rw [hleaves, pieces_join (by simp)]
  exact retold_left w fam

/-- **A run keeps the text below each node that stays.** -/
theorem Leads.retells {ws : List Work} (h : Leads root ws f f') :
    Forest.Retells true (.node (root, .document) f .nil) (.node (root, .document) f' .nil) :=
  h.preserves (R := fun f f' => Forest.Retells true (.node (root, .document) f .nil)
    (.node (root, .document) f' .nil)) (fun _ => .refl _ _) (fun h h' => h.trans h')
    fun _ _ _ _ hstep => hstep.retells

/-- The characters of all texts below a node, in document order. -/
def textBelow (doc : Document) (id : NodeId) : Except DocumentError (List Char) :=
  (doc.trees doc.maxLevels [id]).map Forest.text

/-- A node of a forest that is shown is shown with all below it. -/
theorem exists_shows_of_has {parent : Option NodeId} (h : doc.Shows parent f) {id : NodeId}
    {c : Content} {below : NumberedForest} (hhas : f.Has id c below) :
    ∃ above, doc.Shows above (.node (id, c) below .nil) := by
  induction hhas generalizing parent with
  | here => exact ⟨parent, h.1, h.2.1, trivial⟩
  | inside _ ih => exact ih h.2.1
  | after _ ih => exact ih h.2.2

/-- The text below a node that stands in a document is that of the forest below it. -/
theorem Stands.textBelow (h : doc.Stands root f) {id : NodeId} {c : Content}
    {below : NumberedForest} (hhas : Forest.Has (.node (root, .document) f .nil) id c below)
    (htext : c.isText = false) : doc.textBelow id = .ok below.contents.text := by
  obtain ⟨above, hshows⟩ := exists_shows_of_has h.shows hhas
  have hlevels : Forest.levels (.node (id, c) below .nil) ≤ doc.maxLevels := by
    have hle := hhas.levels_le
    have hall := h.levels_le
    rw [Forest.levels, Forest.levels] at hle
    rw [Forest.levels, Forest.levels, maxLevels]
    omega
  have htrees := trees_of_shows hshows hlevels
  rw [Forest.ids_node, Forest.ids_nil] at htrees
  rw [Document.textBelow, htrees, Forest.contents_node, Forest.contents_nil]
  change Except.ok (Forest.text _) = _
  rw [Forest.text_node, htext]
  simp [Forest.text, Forest.toList]

/-- The text below the root is that of the tree. -/
theorem Stands.text_tree (h : doc.Stands root f) : doc.textBelow root = .ok (treeOf f).text := by
  have htree := h.tree
  rw [Document.tree, h.root_eq] at htree
  rw [Document.textBelow]
  change (doc.trees doc.maxLevels (some root).toList).map Forest.text = _
  rw [htree]
  rfl

/-- A node of the document holds what the forest says. -/
theorem Stands.content_of_has (h : doc.Stands root f) {id : NodeId} {c : Content}
    {below : NumberedForest} (hhas : Forest.Has (.node (root, .document) f .nil) id c below)
    {node : Node} (hnode : doc.node id = .ok node) : node.toContent = c := by
  obtain ⟨above, hshows⟩ := exists_shows_of_has h.shows hhas
  have hhere := hshows.1
  rw [getElem?_of_node hnode] at hhere
  rw [Option.some.inj hhere]

end Document

/-- Elements are never taken out. -/
theorem Content.mayGo_of_isElement {c : Content} (h : c.isElement = true) : c.mayGo = false := by
  rw [isElement, decide_eq_true_eq] at h
  rw [mayGo, isText, h]
  rfl

namespace Settings

/-- **A run keeps the text of a page.** All of it but whitespace, and below each element that
preserves its text also that. -/
theorem run_keeps_text (s : Settings) (read? : String → Option Url) {maxDepth : Nat}
    {page : String} {doc : Document} (h : Document.parse maxDepth page = .ok doc) :
    ∃ doc' tree tree' ids ids', (Run.settings read? s).apply doc = (.ok s.writeOptions, doc') ∧
      (doc.tree = .ok tree ∧ doc'.tree = .ok tree' ∧ solid tree'.text = solid tree.text) ∧
      doc.descendants = .ok ids ∧ doc'.descendants = .ok ids' ∧
      ∀ id ∈ ids, ∀ node, doc.node id = .ok node → node.preservesText = true →
        id ∈ ids' ∧ ∃ text, doc.textBelow id = .ok text ∧ doc'.textBelow id = .ok text := by
  obtain ⟨f, -, hstands, htidy⟩ := Document.exists_stands_of_parse h
  obtain ⟨counts, doc', f', hrun, hstands', htidy', hleads⟩ :=
    hstands.exists_succeeds htidy read? s.context s.active
  have hretells := hleads.retells
  refine ⟨doc', _, _, _, _, hrun.apply_passes {}, ⟨hstands.tree, hstands'.tree, ?_⟩,
    hstands.descendants, hstands'.descendants, fun id hid node hnode hpreserves => ?_⟩
  · obtain ⟨c', below', hhas', halike, hretold⟩ := hretells 0 .document _ .here rfl
    have hbefore := hstands.text_tree
    rw [hstands.textBelow .here rfl] at hbefore
    have hafter := hstands'.text_tree
    rw [hstands'.textBelow hhas' halike.isText_eq] at hafter
    rw [← Except.ok.inj hbefore, ← Except.ok.inj hafter]
    exact hretold.squeezed
  · rw [Document.familiesOf, Forest.map_id_families] at hid ⊢
    obtain ⟨c, below, hhas⟩ := Forest.exists_has_of_mem hid
    have hc : c.preservesText = true := by
      rw [← hstands.content_of_has hhas hnode]
      exact hpreserves
    have hstays : c.mayGo = false :=
      Content.mayGo_of_isElement (Bool.and_eq_true_iff.mp hc).1
    have htext : c.isText = false := (Bool.or_eq_false_iff.mp hstays).1
    obtain ⟨c', below', hhas', halike, hretold⟩ := hretells id c below hhas hstays
    refine ⟨hhas'.mem_allIds, below.contents.text, hstands.textBelow hhas htext, ?_⟩
    rw [hstands'.textBelow hhas' (halike.isText_eq.trans htext), hretold.exact (by rw [hc]; rfl)]

/-- The page of the other samples keeps two blanks in its preformatted text. -/
theorem run_keeps_text_messyPage :
    Document.parse 3 messyPage = .ok (.ofForest messyForest) ∧
      ∃ doc', (Run.settings Url.parse? off.withAll).apply (.ofForest messyForest) =
          (.ok off.withAll.writeOptions, doc') ∧
        doc'.textBelow 9 = .ok " c  d".toList := by
  obtain ⟨doc', _, _, ids, _, hrun, -, hids, -, hkept⟩ :=
    run_keeps_text off.withAll Url.parse? parse_messyPage
  have hall : (Document.ofForest messyForest).descendants = .ok (List.range 13) := by decide
  have hmem : 9 ∈ ids := by
    rw [hids] at hall
    rw [Except.ok.inj hall]
    decide
  obtain ⟨-, text, hbefore, hafter⟩ := hkept 9 hmem _ rfl (by decide)
  have hpre : (Document.ofForest messyForest).textBelow 9 = .ok " c  d".toList := by decide
  rw [hbefore] at hpre
  exact ⟨parse_messyPage, doc', hrun, hafter.trans hpre⟩

end Settings

end HtmlMinify
