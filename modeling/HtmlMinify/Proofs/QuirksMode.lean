import HtmlMinify.Proofs.RoundTrip
import HtmlMinify.Proofs.TokenOrder

/-!
# Quirks mode, while a page is read and once it is read

While a page is read, the first token that is not a comment, an instruction, character data or a blank
text decides on quirks mode. Once it is read, the nodes at its top decide. The two agree on every page
but for one thing: an end tag decides also when it leaves no node behind. Such a page was read in quirks
mode, whatever doctype follows.

## Main statements

* `Forest.Tells.pageQuirks_eq`: the nodes at the top decide as the pieces of the page do.
* `Builder.Reads.quirks_eq`: so does a run, unless an end tag that is dropped comes first.
* `Document.quirks_of_parse`: reading and writing agree on quirks mode up to such end tags.
-/

namespace HtmlMinify

open Text

namespace Token

/-- The token decides on quirks mode, if none before it did. -/
def decides : Token → Bool
  | .comment _ | .cdata _ | .instruction _ => false
  | .text value => !isBlank value
  | .doctype _ | .startTag _ | .endTag _ => true

/-- The token is an end tag that ends nothing at the top of a page and leaves nothing behind there. -/
def isStrayEnd : Token → Bool
  | .endTag name => !(sameIgnoringCase name "br" || sameIgnoringCase name "p")
  | _ => false

/-- The first token that decides on quirks mode is an end tag that leaves nothing behind. -/
def strayEndFirst (tokens : List Token) : Bool :=
  (tokens.find? (·.decides)).any (·.isStrayEnd)

end Token

namespace Piece

/-- The page with these pieces is in quirks mode: the first doctype counts, if only comments,
instructions, character data and blanks stand before it. -/
def quirks : List Piece → Bool
  | [] => true
  | .char c :: rest => if isSpace c then quirks rest else true
  | .leaf d :: rest => if d.kind = .doctype then Doctype.quirks d.value else quirks rest
  | .element _ :: _ | .lineBreak :: _ | .paragraph :: _ => true

/-- Blank characters leave the mode open, and any other makes it quirks. -/
theorem quirks_chars (cs : List Char) (rest : List Piece) :
    quirks (cs.map .char ++ rest) = if cs.all isSpace then quirks rest else true := by
  induction cs with
  | nil => rfl
  | cons c cs ih =>
    rw [List.map_cons, List.cons_append, quirks, ih, List.all_cons]
    cases isSpace c <;> rfl

/-- Blank texts do not count, and any other text decides. -/
theorem quirks_text (value : String) (rest : List Piece) :
    quirks (value.toList.map .char ++ rest) = if isBlank value then quirks rest else true :=
  quirks_chars value.toList rest

end Piece

/-- **The nodes at the top of a page decide as its pieces do.** -/
theorem Forest.Tells.pageQuirks_eq {f : Forest Content} {ps : List Piece} (h : f.Tells ps) :
    Doctype.pageQuirks f.roots = Piece.quirks ps := by
  induction h with
  | nil => rfl
  | @text c siblings ps htext _ ih =>
    have hkind : c.kind = .text := by simpa [Content.isText] using htext
    rw [roots, Doctype.pageQuirks, hkind, Piece.quirks_text, ← ih]
  | @node piece c children siblings ps qs his hchildren _ _ ih =>
    rw [roots]
    cases piece with
    | char _ => exact his.elim
    | leaf d =>
      obtain ⟨rfl, hdeclared, rfl⟩ := his
      cases hchildren
      rw [Piece.quirks, List.nil_append, ← ih, Doctype.pageQuirks]
      unfold Content.isDeclaration at hdeclared
      cases hkind : c.kind <;> simp [hkind] at hdeclared ⊢
    | element tag =>
      have hkind : c.kind = .element := by simpa [Content.isElement] using his.1
      rw [Doctype.pageQuirks, hkind]
      rfl
    | lineBreak | paragraph =>
      rw [his.1]
      rfl

namespace Builder

/-- What a token does leaves quirks mode as the token says. -/
theorem Effect.observed {b b' : Builder} {token : Token} {raw : Option String}
    (h : b.Effect token b' raw) :
    b'.quirks = (b.observe token).quirks ∧ b'.decided = (b.observe token).decided := by
  cases h with
  | text value => exact ⟨quirks_onChildren .., decided_onChildren ..⟩
  | leaf _ => exact ⟨quirks_onChildren .., decided_onChildren ..⟩
  | leafTag tag n selfClosing _ => simp [insert]
  | openTag tag n selfClosing _ => simp [opened]
  | lineBreak name _ _ => exact ⟨quirks_onChildren .., decided_onChildren ..⟩
  | endTag name n _ _ _ => simp
  | paragraph name _ _ _ => exact ⟨quirks_onChildren .., decided_onChildren ..⟩
  | dropped name _ _ _ => exact ⟨rfl, rfl⟩

/-- Once the mode is decided, no token changes it. -/
theorem quirks_observe_of_decided {b : Builder} (h : b.decided = true) (token : Token) :
    (b.observe token).quirks = b.quirks := by
  cases token with
  | text value =>
    rw [observe]
    split <;> rfl
  | doctype value => rw [observe, if_pos h]
  | comment _ | cdata _ | instruction _ | startTag _ | endTag _ => rfl

/-- Tokens that do not decide the mode leave it open. -/
theorem observe_of_not_decides {token : Token} (h : token.decides = false) (b : Builder) :
    b.observe token = b := by
  cases token with
  | text value => rw [observe, if_pos (by simpa [Token.decides] using h)]
  | comment _ | cdata _ | instruction _ => rfl
  | doctype _ | startTag _ | endTag _ => cases h

/-- Tokens that decide the mode do so once and for all. -/
theorem decided_observe_of_decides {token : Token} (h : token.decides = true) (b : Builder) :
    (b.observe token).decided = true := by
  cases token with
  | text value => rw [observe, if_neg (by simpa [Token.decides] using h)]
  | doctype value =>
    rw [observe]
    split
    · assumption
    · rfl
  | startTag _ | endTag _ => rfl
  | comment _ | cdata _ | instruction _ => cases h

/-- A token that does not decide opens nothing, and its pieces do not count. -/
theorem Effect.of_not_decides {b b' : Builder} {token : Token} {raw : Option String}
    (h : b.Effect token b' raw) (htoken : token.decides = false) :
    b'.openTags = b.openTags ∧ ∀ ps, Piece.quirks ((Event.mk token b.openTags).pieces ++ ps) =
      Piece.quirks ps := by
  cases h with
  | text value =>
    have hblank : isBlank value = true := by simpa [Token.decides] using htoken
    refine ⟨by rw [addText, openTags_onChildren, openTags_observe], fun ps => ?_⟩
    rw [Event.pieces_text, Piece.quirks_text, if_pos hblank]
  | @leaf token c hleaf =>
    refine ⟨by rw [openTags_insert, openTags_observe], fun ps => ?_⟩
    rw [Event.pieces_of_leaf? hleaf, List.singleton_append, Piece.quirks, if_neg]
    cases token with
    | comment _ | cdata _ | instruction _ =>
      cases hleaf
      exact NodeKind.noConfusion
    | doctype _ => cases htoken
    | startTag _ | endTag _ | text _ => cases hleaf
  | leafTag | openTag | lineBreak | endTag | paragraph | dropped => cases htoken

/-- A token that decides at the top of a page does so by its pieces, or drops an end tag. -/
theorem Effect.of_decides {b b' : Builder} {token : Token} {raw : Option String}
    (h : b.Effect token b' raw) (htoken : token.decides = true) (hopen : b.openTags = [])
    (hundecided : b.decided = false) (hquirks : b.quirks = true) (ps : List Piece) :
    (b.observe token).quirks = (token.isStrayEnd ||
      Piece.quirks ((Event.mk token b.openTags).pieces ++ ps)) := by
  cases h with
  | text value =>
    have hblank : ¬ isBlank value = true := by simpa [Token.decides] using htoken
    rw [Event.pieces_text, Piece.quirks_text, if_neg hblank, observe, if_neg hblank]
    exact hquirks
  | @leaf token c hleaf =>
    rw [Event.pieces_of_leaf? hleaf]
    cases token with
    | doctype value =>
      cases hleaf
      have hkind : (Content.leaf .doctype value).kind = .doctype := rfl
      have hvalue : (Content.leaf .doctype value).value = value := rfl
      have hstray : Token.isStrayEnd (.doctype value) = false := rfl
      rw [observe, if_neg (by simp [hundecided]), List.singleton_append, Piece.quirks, if_pos hkind,
        hvalue, hstray, Bool.false_or]
    | comment _ | cdata _ | instruction _ => cases htoken
    | startTag _ | endTag _ | text _ => cases hleaf
  | leafTag tag n selfClosing _ => exact hquirks
  | openTag tag n selfClosing _ => exact hquirks
  | lineBreak name hname hhtml =>
    rw [Event.pieces_lineBreak hname hhtml, Token.isStrayEnd, hname]
    exact hquirks
  | endTag name n _ hends hleft =>
    rw [hopen, List.drop_nil] at hleft
    rw [hopen, hleft] at hends
    exact absurd rfl hends
  | paragraph name hname hhtml hends =>
    rw [Event.pieces_paragraph hname hhtml hends]
    exact hquirks.trans (Bool.or_true _).symm
  | dropped name hbr hp _ =>
    rw [hopen] at hbr hp
    have hstray : Token.isStrayEnd (.endTag name) = true := by
      simpa [Token.isStrayEnd, Open.inForeign] using And.intro hbr hp
    rw [hstray]
    exact hquirks

/-- Once it is decided, quirks mode is kept to the end. -/
theorem Reads.quirks_of_decided {b final : Builder} {raw : Option String} {input : List Char}
    {events : List Event} (h : Reads b raw input events final) (hdecided : b.decided = true) :
    final.quirks = b.quirks := by
  induction h with
  | nil _ => rfl
  | @cons b b' _ _ _ _ _ token _ _ heffect _ ih =>
    obtain ⟨hquirks, hdecided'⟩ := heffect.observed
    rw [ih (hdecided'.trans (decided_observe hdecided token)), hquirks,
      quirks_observe_of_decided hdecided]

/-- **A run decides on quirks mode as the pieces of its tokens do**, unless an end tag that is dropped
comes first: no doctype after it counts. -/
theorem Reads.quirks_eq {b final : Builder} {raw : Option String} {input : List Char}
    {events : List Event} (h : Reads b raw input events final) (hopen : b.openTags = [])
    (hundecided : b.decided = false) (hquirks : b.quirks = true) :
    final.quirks = (Token.strayEndFirst (events.map (·.token)) ||
      Piece.quirks (events.flatMap (·.pieces))) := by
  induction h with
  | nil _ => exact hquirks
  | @cons b b' _ _ _ _ _ token events _ heffect hreads ih =>
    obtain ⟨hobserved, hdecided⟩ := heffect.observed
    rw [List.map_cons, List.flatMap_cons, Token.strayEndFirst, List.find?_cons]
    cases htoken : token.decides with
    | false =>
      obtain ⟨hopen', hpieces⟩ := heffect.of_not_decides htoken
      rw [observe_of_not_decides htoken] at hobserved hdecided
      rw [hpieces]
      exact ih (hopen'.trans hopen) (hdecided.trans hundecided) (hobserved.trans hquirks)
    | true =>
      have hnow := hdecided.trans (decided_observe_of_decides htoken b)
      rw [hreads.quirks_of_decided hnow, hobserved,
        heffect.of_decides htoken hopen hundecided hquirks (events.flatMap (·.pieces))]
      rfl

end Builder

namespace Document

/-- A written forest has the mode that its roots call for. -/
theorem quirks_ofForest (f : Forest Content) :
    ∃ outline, (ofForest f).outline = .ok outline ∧ outline.quirks = Doctype.pageQuirks f.roots := by
  obtain ⟨label, -, houtline⟩ :=
    outline_of_shows rfl (shows_ofForest f) rfl (levels_numbered f)
  rw [Forest.contents_number] at houtline
  exact ⟨_, houtline, Forest.pageQuirks_place none f⟩

/-- **Reading and writing agree on quirks mode**, unless the first token that decides on it is an end
tag that leaves nothing behind. Such a page is read in quirks mode, and written in the mode of the
nodes at its top. -/
theorem quirks_of_parse {maxDepth : Nat} {page : String} {doc : Document}
    (h : Document.parse maxDepth page = .ok doc) :
    ∃ d outline, Draft.run maxDepth {} none page.toList = .ok d ∧ doc = d.doc ∧
      doc.outline = .ok outline ∧
      d.quirks = (Token.strayEndFirst ((Document.log maxDepth page).map (·.token)) ||
        outline.quirks) := by
  obtain ⟨b, hrun, hreads, rfl⟩ := exists_reads_of_parse h
  obtain ⟨d, hdraft, hshows, hdoc⟩ := Draft.exists_run_of_run hrun
  obtain ⟨outline, houtline, hquirks⟩ := quirks_ofForest b.forest
  refine ⟨d, outline, hdraft, hdoc.symm, houtline, ?_⟩
  rw [hshows.quirks_eq, hquirks, hreads.tells.pageQuirks_eq, hreads.quirks_eq rfl rfl rfl]

/-- A stray end tag after the doctype does not matter. -/
theorem quirks_of_parse_doctypeFirst :
    ∃ doc, Document.parse 8 "<!--c--><!DOCTYPE html></b>" = .ok doc ∧
      ∃ d outline, Draft.run 8 {} none "<!--c--><!DOCTYPE html></b>".toList = .ok d ∧
        doc.outline = .ok outline ∧ d.quirks = false ∧ outline.quirks = false := by
  have hread : ∃ b, (Builder.run 8 {} none "<!--c--><!DOCTYPE html></b>".toList = .ok b ∧
      Builder.log 8 {} none "<!--c--><!DOCTYPE html></b>".toList =
        [⟨.comment "c", []⟩, ⟨.doctype "DOCTYPE html", []⟩, ⟨.endTag "b", []⟩]) ∧
      b.quirks = Doctype.quirks "DOCTYPE html" :=
    ⟨_, Builder.run_log_of_step "<!DOCTYPE html></b>".toList rfl rfl <|
      Builder.run_log_of_step "</b>".toList rfl rfl <|
      Builder.run_log_of_step [] rfl rfl Builder.run_log_nil, rfl⟩
  obtain ⟨b, ⟨hrun, hlog⟩, hmode⟩ := hread
  obtain ⟨d, hdraft, hshows, -⟩ := Draft.exists_run_of_run hrun
  obtain ⟨d', outline, hdraft', -, houtline, hquirks⟩ := quirks_of_parse (parse_of_run hrun)
  rw [hdraft] at hdraft'
  cases hdraft'
  have hfalse : d.quirks = false := by
    rw [hshows.quirks_eq, hmode]
    decide
  rw [Document.log_eq, hlog, hfalse] at hquirks
  exact ⟨_, parse_of_run hrun, d, outline, hdraft, houtline, hfalse, hquirks.symm⟩

/-- An end tag that is dropped leaves a page whose first node is its doctype, but which was read in
quirks mode. -/
theorem quirks_of_parse_strayEnd_ne :
    ∃ d outline, Draft.run 8 {} none "</b><!DOCTYPE html>".toList = .ok d ∧
      Document.parse 8 "</b><!DOCTYPE html>" = .ok d.doc ∧ d.doc.outline = .ok outline ∧
      d.quirks = true ∧ outline.quirks = false := by
  have hread : ∃ b, (Builder.run 8 {} none "</b><!DOCTYPE html>".toList = .ok b ∧
      Builder.log 8 {} none "</b><!DOCTYPE html>".toList =
        [⟨.endTag "b", []⟩, ⟨.doctype "DOCTYPE html", []⟩]) ∧
      b.quirks = true ∧ b.forest = .node (.leaf .doctype "DOCTYPE html") .nil .nil :=
    ⟨_, Builder.run_log_of_step "<!DOCTYPE html>".toList rfl rfl <|
      Builder.run_log_of_step [] rfl rfl Builder.run_log_nil, rfl, rfl⟩
  obtain ⟨b, ⟨hrun, -⟩, hquirks, hforest⟩ := hread
  obtain ⟨d, hdraft, hshows, hdoc⟩ := Draft.exists_run_of_run hrun
  obtain ⟨outline, houtline, hmode⟩ := quirks_ofForest b.forest
  refine ⟨d, outline, hdraft, hdoc ▸ parse_of_run hrun, hdoc ▸ houtline,
    hshows.quirks_eq.trans hquirks, ?_⟩
  rw [hmode, hforest]
  decide

end Document

end HtmlMinify
