import HtmlMinify.Proofs.TagRecovery
import HtmlMinify.Proofs.TokenLog

/-!
# Raw text elements hold one text

After the start tag of a raw text element outside foreign content, all is text up to an end tag of the
element, or to the end of the page. The builder does not look at this when it takes a token: that
nothing but a text comes to stand in such an element is a fact about the builder and the input
together. `Builder.Kept` says what holds of the trees built so far, and `Builder.Guards` that what is
left to be read begins with the raw text or the end tag of the innermost element, if that is raw.

## Main statements

* `Token.next?_of_raw`, `Token.next?_of_stops`: the tokens that can come inside a raw text element.
* `Builder.Kept.effect`: a token keeps both, since inside a raw text element it is a text or ends it.
* `Forest.rawKept_of_parse`: the raw text elements of a page hold at most one text and nothing else.
-/

namespace HtmlMinify

open Text

/-- A raw text element is neither void nor the root of foreign content. -/
theorem Tag.apart_of_isRawText {tag : String} (h : Tag.isRawText tag = true) :
    Tag.isVoid tag = false ∧ Tag.isForeignRoot tag = false := by
  have htables : ∀ name ∈ Tag.rawTextElements,
      name ∉ Tag.voidElements ∧ name ∉ Tag.foreignRoots := by
    decide
  have hnot := htables (lower tag) (by simpa [Tag.isRawText, inTable] using h)
  simpa [Tag.isVoid, Tag.isForeignRoot, inTable] using hnot

/-! ## Tokens inside a raw text element -/

namespace Token

/-- Raw text goes on to an end tag of its element, or to the end. -/
theorem rawText_stops (tag : String) (input : List Char) :
    (rawText tag input).2 = [] ∨ endsRawText tag (rawText tag input).2 = true := by
  induction input with
  | nil => exact .inl rfl
  | cons c cs ih =>
    rw [rawText]
    split
    · next hends => exact .inr hends
    · exact ih

/-- An end tag that is never finished is text up to the end. -/
theorem next?_of_unfinished {tag : String} (htag : Tag.isRawText tag = true) {input : List Char}
    (h : endsRawText tag input = true) (hgt : '>' ∉ input) :
    next? none input = some (ofText input, []) := by
  obtain ⟨c, word, after, rfl, hletters, -, -⟩ := exists_name_of_endsRawText htag h
  have halpha : c.isAlpha = true := hletters c (by simp)
  have hbreak : breakOnChar? '>' ((c :: word ++ after).dropWhile (!endsName ·)) = none := by
    cases hfound : breakOnChar? '>' ((c :: word ++ after).dropWhile (!endsName ·)) with
    | none => rfl
    | some result =>
      have hmem : '>' ∈ (c :: word ++ after).dropWhile (!endsName ·) := by
        rw [eq_append_of_breakOnChar? hfound]
        simp
      have hinside := (List.dropWhile_suffix _).subset hmem
      exact absurd (List.mem_cons_of_mem _ (List.mem_cons_of_mem _ hinside)) hgt
  have hc : c ≠ '>' := by
    rintro rfl
    exact absurd halpha (by decide)
  have hdrop : dropEmptyEndTags ('<' :: '/' :: (c :: word ++ after)) =
      '<' :: '/' :: (c :: word ++ after) := by
    rw [List.cons_append, dropEmptyEndTags]
    simpa using hc
  show plain? (dropEmptyEndTags _) = _
  rw [hdrop]
  show some (closing (c :: word ++ after)) = _
  rw [List.cons_append] at hbreak ⊢
  rw [closing, if_pos halpha, hbreak]

/-- **Where a raw text stops**, the next token is an end tag of its element, or a text to the end. -/
theorem next?_of_stops {tag : String} (htag : Tag.isRawText tag = true) {input rest : List Char}
    {token : Token} (hstops : input = [] ∨ endsRawText tag input = true)
    (h : next? none input = some (token, rest)) :
    (∃ value, token = .text value ∧ rest = []) ∨
      ∃ name, token = .endTag name ∧ lower name = lower tag := by
  rcases hstops with rfl | hends
  · cases h
  · by_cases hgt : '>' ∈ input
    · obtain ⟨name, unread, hnext, hname⟩ := next?_of_endsRawText htag hends hgt
      rw [hnext] at h
      cases h
      exact .inr ⟨name, rfl, hname⟩
    · rw [next?_of_unfinished htag hends hgt] at h
      cases h
      exact .inl ⟨_, rfl, rfl⟩

/-- There is no raw text where it would stop at once; otherwise it is a text up to where it stops. -/
theorem rawText?_cases (tag : String) (input : List Char) :
    (rawText? tag input = none ∧ (input = [] ∨ endsRawText tag input = true)) ∨
      ∃ value rest, rawText? tag input = some (.text value, rest) ∧
        (rest = [] ∨ endsRawText tag rest = true) := by
  by_cases hplain : sameIgnoringCase tag "plaintext" = true
  · rw [rawText?, if_pos hplain]
    cases input with
    | nil => exact .inl ⟨rfl, .inl rfl⟩
    | cons c cs => exact .inr ⟨_, [], rfl, .inl rfl⟩
  · rw [rawText?, if_neg hplain]
    have happend := rawText_append tag input
    have hstops := rawText_stops tag input
    cases hraw : rawText tag input with
    | mk before after =>
      rw [hraw] at happend hstops
      cases before with
      | nil =>
        rw [← happend]
        exact .inl ⟨rfl, hstops⟩
      | cons c cs => exact .inr ⟨_, after, rfl, hstops⟩

/-- **After the start tag of a raw text element**, the next token is its raw text or its end tag. -/
theorem next?_of_raw {tag : String} (htag : Tag.isRawText tag = true) {input rest : List Char}
    {token : Token} (h : next? (some tag) input = some (token, rest)) :
    (∃ value, token = .text value ∧ (rest = [] ∨ endsRawText tag rest = true)) ∨
      ∃ name, token = .endTag name ∧ lower name = lower tag := by
  rw [next?, Option.bind_some] at h
  rcases rawText?_cases tag input with ⟨hnone, hstops⟩ | ⟨value, after, hsome, hstops⟩
  · rw [hnone] at h
    refine (next?_of_stops htag hstops h).imp_left ?_
    rintro ⟨value, hvalue, hrest⟩
    exact ⟨value, hvalue, .inl hrest⟩
  · rw [hsome] at h
    cases h
    exact .inl ⟨value, rfl, hstops⟩

end Token

/-! ## Forests -/

namespace Forest

/-- There is at most one text, and nothing else. -/
def OneText : Forest Content → Prop
  | nil => True
  | node c below after => c.isText = true ∧ below = nil ∧ after = nil

/-- The raw text elements of a forest inside `outer` hold at most one text. -/
def RawKept : List String → Forest Content → Prop
  | _, nil => True
  | outer, node c children siblings =>
    (rawIn (c.name :: outer) = true → children.OneText) ∧ children.RawKept (c.name :: outer) ∧
      siblings.RawKept outer

end Forest

/-! ## Builders -/

namespace Builder

open Forest (prependReversed)

/-- The raw text elements of trees inside `outer` hold at most one text. -/
def TreesKept (outer : List String) (trees : List Tree) : Prop :=
  ∀ tree ∈ trees, (rawIn (tree.1.name :: outer) = true → tree.2.OneText) ∧
    tree.2.RawKept (tree.1.name :: outer)

/-- Among trees there is at most one text, and nothing else. -/
def OneText : List Tree → Prop
  | [] => True
  | (c, below) :: earlier => c.isText = true ∧ below = .nil ∧ earlier = []

/-- The raw text elements below the open elements hold at most one text, as does the innermost open
element if it is raw. No other open element is. -/
def FramesKept : List Frame → Prop
  | [] => True
  | frame :: outer =>
    rawIn (outer.map (·.content.name)) = false ∧
      (rawIn (frame.content.name :: outer.map (·.content.name)) = true → OneText frame.done) ∧
      TreesKept (frame.content.name :: outer.map (·.content.name)) frame.done ∧ FramesKept outer

/-- The raw text elements so far hold at most one text. -/
structure Kept (b : Builder) : Prop where
  frames : FramesKept b.frames
  done : TreesKept [] b.done

/-- What is left to be read begins with the raw text of the innermost open element, or where it stops,
if that element is raw. -/
def Guards (b : Builder) (raw : Option String) (input : List Char) : Prop :=
  ∀ tag outer, b.openTags = tag :: outer → rawIn b.openTags = true →
    raw = some tag ∨ raw = none ∧ (input = [] ∨ Token.endsRawText tag input = true)

/-- If the raw text elements of trees hold one text, so do those of the forest. -/
theorem TreesKept.rawKept {outer : List String} {trees : List Tree} (h : TreesKept outer trees)
    {after : Forest Content} (hafter : after.RawKept outer) :
    (prependReversed trees after).RawKept outer := by
  induction trees generalizing after with
  | nil => exact hafter
  | cons tree earlier ih =>
    obtain ⟨htext, hbelow⟩ := h tree List.mem_cons_self
    exact ih (fun other hother => h other (List.mem_cons_of_mem _ hother)) ⟨htext, hbelow, hafter⟩

/-- One text among trees is one text in the forest. -/
theorem OneText.forest {trees : List Tree} (h : OneText trees) :
    (prependReversed trees .nil).OneText := by
  cases trees with
  | nil => trivial
  | cons tree earlier =>
    obtain ⟨htext, hbelow, rfl⟩ := h
    exact ⟨htext, hbelow, rfl⟩

/-- A text joins the text that is there, so that there is still one. -/
theorem OneText.joinText {trees : List Tree} (h : OneText trees) (value : String) :
    OneText (joinText value trees) := by
  cases trees with
  | nil => exact ⟨rfl, rfl, rfl⟩
  | cons tree earlier =>
    obtain ⟨htext, hbelow, hearlier⟩ := h
    rw [Builder.joinText, if_pos htext]
    exact ⟨htext, hbelow, hearlier⟩

/-- A text among trees does not change what their raw text elements hold. -/
theorem TreesKept.joinText {outer : List String} {trees : List Tree} (h : TreesKept outer trees)
    (value : String) : TreesKept outer (joinText value trees) := by
  have hleaf : (rawIn ((Content.leaf .text value).name :: outer) = true → Forest.nil.OneText) ∧
      Forest.nil.RawKept ((Content.leaf .text value).name :: outer) := ⟨fun _ => trivial, trivial⟩
  cases trees with
  | nil => exact List.forall_mem_singleton.mpr hleaf
  | cons tree earlier =>
    obtain ⟨hlast, hearlier⟩ := List.forall_mem_cons.mp h
    rw [Builder.joinText]
    split
    · exact List.forall_mem_cons.mpr ⟨hlast, hearlier⟩
    · exact List.forall_mem_cons.mpr ⟨hleaf, h⟩

/-- Elements around the innermost open one are not raw. -/
theorem FramesKept.rawIn_drop {frames : List Frame} (h : FramesKept frames) {n : Nat}
    (hn : n ≠ 0) : rawIn ((frames.map (·.content.name)).drop n) = false := by
  induction frames generalizing n with
  | nil =>
    rw [List.map_nil, List.drop_nil]
    rfl
  | cons frame outer ih =>
    obtain ⟨houter, -, -, hframes⟩ := h
    cases n with
    | zero => exact absurd rfl hn
    | succ n =>
      rw [List.map_cons, List.drop_succ_cons]
      cases n with
      | zero => exact houter
      | succ n => exact ih hframes n.succ_ne_zero

/-- Outside raw text nothing needs to be known about what comes next. -/
theorem guards_of_not_raw {b : Builder} {raw : Option String} {input : List Char}
    (h : rawIn b.openTags = false) : b.Guards raw input := by
  intro tag outer _ hraw
  rw [h] at hraw
  cases hraw

namespace Kept

variable {b : Builder}

theorem observe (h : b.Kept) (token : Token) : (b.observe token).Kept := by
  have hbare : Kept b.bare := ⟨h.frames, h.done⟩
  rw [← bare_observe token] at hbare
  exact ⟨hbare.frames, hbare.done⟩

/-- Changes of what the innermost open element holds keep raw text elements to one text, if they do
so themselves. -/
theorem onChildren (h : b.Kept) {change : List Tree → List Tree}
    (htext : rawIn b.openTags = true → OneText b.children → OneText (change b.children))
    (htrees : TreesKept b.openTags b.children → TreesKept b.openTags (change b.children)) :
    (b.onChildren change).Kept := by
  obtain ⟨frames, done, quirks, decided⟩ := b
  cases frames with
  | nil => exact ⟨trivial, htrees h.done⟩
  | cons frame outer =>
    obtain ⟨houter, hone, hkept, hframes⟩ := h.frames
    exact ⟨⟨houter, fun hraw => htext hraw (hone hraw), htrees hkept, hframes⟩, h.done⟩

/-- A tree that is inserted outside raw text is kept. -/
theorem insert (h : b.Kept) (hraw : rawIn b.openTags = false) {c : Content}
    {below : Forest Content} (htext : rawIn (c.name :: b.openTags) = true → below.OneText)
    (hbelow : below.RawKept (c.name :: b.openTags)) : (b.insert (c, below)).Kept := by
  refine h.onChildren (fun hin => ?_) fun htrees tree htree => ?_
  · rw [hraw] at hin
    cases hin
  · rcases List.mem_cons.mp htree with rfl | htree
    · exact ⟨htext, hbelow⟩
    · exact htrees tree htree

/-- Texts join in raw text elements, so there is one. -/
theorem addText (h : b.Kept) (value : String) : (b.addText value).Kept :=
  (h.observe (.text value)).onChildren (fun _ hone => hone.joinText value)
    fun htrees => htrees.joinText value

/-- Ending elements puts them where they were kept already. -/
theorem close (h : b.Kept) (n : Nat) : (b.close n).Kept := by
  induction n generalizing b with
  | zero => exact h
  | succ n ih =>
    rw [Builder.close]
    cases hframes : b.frames with
    | nil => exact h
    | cons frame outer =>
      obtain ⟨hall, hdone⟩ := h
      rw [hframes] at hall
      obtain ⟨houter, hone, htrees, hrest⟩ := hall
      have hinside : Kept { b with frames := outer } := ⟨hrest, hdone⟩
      exact ih (hinside.insert houter (fun hraw => (hone hraw).forest) (htrees.rawKept trivial))

/-- An element that is opened holds nothing yet. -/
theorem opened (h : b.Kept) (hraw : rawIn b.openTags = false) (c : Content) : (b.opened c).Kept :=
  ⟨⟨hraw, fun _ => trivial, fun _ htree => (by cases htree), h.frames⟩, h.done⟩

/-- The trees of a builder. -/
theorem forest (h : b.Kept) : b.forest.RawKept [] :=
  (h.close b.frames.length).done.rawKept trivial

theorem insertLeaf (h : b.Kept) (hraw : rawIn b.openTags = false) (c : Content) :
    (b.insert (c, .nil)).Kept :=
  h.insert hraw (fun _ => trivial) trivial

/-- Outside raw text elements a token may add a node or open an element. If that is raw, its raw text
is asked for. -/
theorem effect_of_not_raw {b' : Builder} {token : Token} {raw : Option String} (h : b.Kept)
    (hraw : rawIn b.openTags = false) (heffect : b.Effect token b' raw) (rest : List Char) :
    b'.Kept ∧ b'.Guards raw rest := by
  have hobserved := h.observe token
  have hraw' : rawIn (b.observe token).openTags = false := by rwa [openTags_observe]
  have hdrop (n : Nat) : rawIn ((b.observe token).close n).openTags = false := by
    rw [openTags_close]
    cases n with
    | zero => exact hraw'
    | succ n => exact hobserved.frames.rawIn_drop n.succ_ne_zero
  cases heffect with
  | text value =>
    exact ⟨h.addText value, guards_of_not_raw (by rwa [Builder.addText, openTags_onChildren])⟩
  | leaf _ => exact ⟨hobserved.insertLeaf hraw' _, guards_of_not_raw (by rwa [openTags_insert])⟩
  | leafTag tag n selfClosing _ =>
    exact ⟨(hobserved.close n).insertLeaf (hdrop n) _,
      guards_of_not_raw (by rw [openTags_insert, hdrop n])⟩
  | openTag tag n selfClosing _ =>
    refine ⟨(hobserved.close n).opened (hdrop n) _, fun name outer hopen hrawIn => .inl ?_⟩
    rw [openTags_opened, openTags_close, openTags_observe] at hopen hrawIn
    cases hopen
    exact if_pos hrawIn
  | lineBreak name _ _ =>
    exact ⟨hobserved.insertLeaf hraw' _, guards_of_not_raw (by rwa [openTags_insert])⟩
  | endTag name n _ _ _ => exact ⟨hobserved.close n, guards_of_not_raw (hdrop n)⟩
  | paragraph name _ _ _ =>
    exact ⟨hobserved.insertLeaf hraw' _, guards_of_not_raw (by rwa [openTags_insert])⟩
  | dropped name _ _ _ => exact ⟨hobserved, guards_of_not_raw hraw'⟩

/-- Inside a raw text element a token is a text, or ends the element. -/
theorem effect_of_raw {b' : Builder} {token : Token} {raw raw' : Option String} (h : b.Kept)
    {tag : String} {outer : List String} (hopen : b.openTags = tag :: outer)
    (hraw : rawIn b.openTags = true) {input rest : List Char} (hguards : b.Guards raw input)
    (hnext : Token.next? raw input = some (token, rest)) (heffect : b.Effect token b' raw') :
    b'.Kept ∧ b'.Guards raw' rest := by
  have htag : Tag.isRawText tag = true := by
    rw [hopen, rawIn, Bool.and_eq_true] at hraw
    exact hraw.2
  have htoken : (∃ value, token = .text value ∧
        (rest = [] ∨ Token.endsRawText tag rest = true)) ∨
      ∃ name, token = .endTag name ∧ lower name = lower tag := by
    rcases hguards tag outer hopen hraw with rfl | ⟨rfl, hstops⟩
    · exact Token.next?_of_raw htag hnext
    · refine (Token.next?_of_stops htag hstops hnext).imp_left ?_
      rintro ⟨value, hvalue, hrest⟩
      exact ⟨value, hvalue, .inl hrest⟩
  rcases htoken with ⟨value, rfl, hrest⟩ | ⟨name, rfl, hname⟩
  · cases heffect with
    | text =>
      refine ⟨h.addText value, fun name outer' hopen' _ => .inr ⟨rfl, ?_⟩⟩
      rw [Builder.addText, openTags_onChildren, openTags_observe, hopen] at hopen'
      cases hopen'
      exact hrest
    | leaf hleaf => cases hleaf
  · have hvoid := (Tag.apart_of_isRawText htag).1
    have hends : Open.afterEnd name b.openTags = outer := by
      rw [hopen, Open.afterEnd_congr hname, Open.afterEnd_self hvoid]
    have hless : Open.afterEnd name b.openTags ≠ b.openTags := by
      rw [hends, hopen]
      exact (List.cons_ne_self tag outer).symm
    cases heffect with
    | leaf hleaf => cases hleaf
    | lineBreak _ hbr _ =>
      have hlower : lower tag = lower "br" := by
        rw [← hname]
        simpa [sameIgnoringCase] using hbr
      rw [Tag.isVoid, inTable, hlower] at hvoid
      exact absurd hvoid (by decide)
    | endTag _ n _ _ hleft =>
      have hn : n ≠ 0 := by
        rintro rfl
        exact hless hleft
      have hkept := h.observe (.endTag name)
      refine ⟨hkept.close n, guards_of_not_raw ?_⟩
      rw [openTags_close]
      exact hkept.frames.rawIn_drop hn
    | paragraph _ _ _ hsame => exact absurd hsame hless
    | dropped _ _ _ hsame => exact absurd hsame hless

/-- **A token keeps raw text elements**, whichever it is. -/
theorem effect {b' : Builder} {token : Token} {raw raw' : Option String} (h : b.Kept)
    {input rest : List Char} (hguards : b.Guards raw input)
    (hnext : Token.next? raw input = some (token, rest)) (heffect : b.Effect token b' raw') :
    b'.Kept ∧ b'.Guards raw' rest := by
  cases hraw : rawIn b.openTags with
  | false => exact h.effect_of_not_raw hraw heffect rest
  | true =>
    cases hopen : b.openTags with
    | nil =>
      rw [hopen] at hraw
      cases hraw
    | cons tag outer => exact h.effect_of_raw hopen hraw hguards hnext heffect

/-- A run keeps raw text elements. -/
theorem reads {final : Builder} {raw : Option String} {input : List Char} {events : List Event}
    (h : b.Kept) (hguards : b.Guards raw input) (hreads : Reads b raw input events final) :
    final.Kept := by
  induction hreads with
  | nil _ => exact h
  | cons hnext heffect _ ih =>
    obtain ⟨hkept, hguards'⟩ := h.effect hguards hnext heffect
    exact ih hkept hguards'

end Kept

end Builder

/-- **The raw text elements of a page hold at most one text and nothing else**, outside foreign
content. -/
theorem Forest.rawKept_of_parse {maxDepth : Nat} {page : String} {f : Forest Content}
    (h : Forest.parse maxDepth page = .ok f) : f.RawKept [] := by
  obtain ⟨b, -, hreads, rfl⟩ := exists_reads_of_parse h
  have hempty : Builder.Kept {} := ⟨trivial, by simp [Builder.TreesKept]⟩
  exact (hempty.reads (Builder.guards_of_not_raw rfl) hreads).forest

end HtmlMinify
