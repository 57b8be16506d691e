import HtmlMinify.Proofs.Rereading
import HtmlMinify.Proofs.TokenSpans

/-!
# Escaped texts are no markup

An escaped text may stand before any markup. Its tokens are texts, which hold it piece by piece, and the
markup after it is read as if it stood alone: no `<` of the text begins a token, and none of the markup
is taken for text. Only the end of the text matters for this, so the markup has to be empty or to begin
with `<`, as what is written after a text always does.

## Main statements

* `Token.exists_texts_of_isPlain`: a plain text, escaped or not, is read as texts.
* `Token.readAll_escapeText`: an escaped text before markup.
-/

namespace HtmlMinify

open Text

namespace Token

variable {σ : Type}

/-- The state of a taker that has been given these texts. -/
def takeTexts (take : Token → σ → σ × Option String) (state : σ) (texts : List String) : σ :=
  texts.foldl (fun state value => (take (.text value) state).1) state

/-- **A plain text is read as texts**, the same ones before any markup and for any taker that asks for
no raw text after a text. -/
theorem exists_texts_of_isPlain {cs : List Char} (h : IsPlain cs) :
    ∃ texts : List String, texts.flatMap String.toList = cs ∧ (cs = [] → texts = []) ∧
      ∀ markup : List Char, markup.head?.all (· == '<') = true →
      ∀ {σ : Type} (take : Token → σ → σ × Option String) (state : σ),
        (∀ value state, (take (.text value) state).2 = none) →
        (readAll take state none (cs ++ markup)).map (·.1) =
          texts.map .text ++ (readAll take (takeTexts take state texts) none markup).map (·.1) := by
  -- Each piece ends before the next `<`, and what is left of a plain text is plain.
  induction hlength : cs.length using Nat.strong_induction_on generalizing cs with
  | _ length ih =>
    cases cs with
    | nil => exact ⟨[], rfl, fun _ => rfl, fun _ _ _ _ _ _ => rfl⟩
    | cons c cs =>
      have hshort : (cs.dropWhile (· != '<')).length < length := by
        have := (List.dropWhile_suffix (l := cs) (· != '<')).length_le
        rw [← hlength, List.length_cons]
        omega
      obtain ⟨texts, hjoin, -, hreads⟩ := ih _ hshort (h.dropWhile _) rfl
      refine ⟨String.ofList (c :: cs.takeWhile (· != '<')) :: texts, ?_, ?_, ?_⟩
      · rw [List.flatMap_cons, hjoin, String.toList_ofList, List.cons_append,
          List.takeWhile_append_dropWhile]
      · intro hnil
        cases hnil
      · intro markup hmarkup σ take state hquiet
        rw [readAll_of_next? (next?_of_isPlain h hmarkup), List.map_cons, ofText, hquiet,
          hreads markup hmarkup take _ hquiet]
        rfl

/-- **Escaped text never becomes markup.** Before any markup, its tokens are texts that make it up
together, none if it is empty, and then come the tokens of the markup alone. The taker is any that asks
for no raw text after a text, and the texts are the same for all. Escaping once more changes nothing. -/
theorem readAll_escapeText (s : String) :
    ∃ texts : List String, String.join texts = escapeText s ∧ (s = "" → texts = []) ∧
      (∀ markup : List Char, markup.head?.all (· == '<') = true →
        ∀ {σ : Type} (take : Token → σ → σ × Option String) (state : σ),
          (∀ value state, (take (.text value) state).2 = none) →
          (readAll take state none ((escapeText s).toList ++ markup)).map (·.1) =
            texts.map .text ++ (readAll take (takeTexts take state texts) none markup).map (·.1)) ∧
      escapeText (escapeText s) = escapeText s := by
  obtain ⟨texts, hjoin, hnone, hreads⟩ := exists_texts_of_isPlain (isPlain_escapeChars s.toList)
  have hchars : (escapeText s).toList = escapeChars s.toList := by
    rw [escapeText, String.toList_ofList]
  refine ⟨texts, ?_, ?_, ?_, escapeText_escapeText s⟩
  · rw [← String.toList_inj, String.toList_join, hjoin, hchars]
  · rintro rfl
    exact hnone rfl
  · intro markup hmarkup σ take state hquiet
    rw [hchars]
    exact hreads markup hmarkup take state hquiet

/-- Of two brackets only the one before a letter is escaped, and the start tag after the text is read
as such. -/
theorem readAll_escapeText_bold :
    escapeText "1<2 <b>" = "1<2 &lt;b>" ∧
    ∃ texts : List String, String.join texts = "1<2 &lt;b>" ∧
      (readAll (fun _ _ => ((), none)) () none "1<2 &lt;b><b>".toList).map (·.1) =
        texts.map .text ++ [.startTag ⟨"b", .empty, false⟩] := by
  have hescape : escapeText "1<2 <b>" = "1<2 &lt;b>" := by decide
  obtain ⟨texts, hjoin, -, hreads, -⟩ := readAll_escapeText "1<2 <b>"
  refine ⟨hescape, texts, hjoin.trans hescape, ?_⟩
  have hbold : readAll (fun _ _ => ((), none)) () none "<b>".toList =
      [(.startTag ⟨"b", .empty, false⟩, [])] := by
    have hnext : next? none "<b>".toList = some (.startTag ⟨"b", .empty, false⟩, []) :=
      Builder.next?_bareTag "b" (by decide) []
    rw [readAll_of_next? hnext, readAll_of_next?_none rfl]
  have htokens := hreads "<b>".toList rfl (fun _ _ => ((), none)) () fun _ _ => rfl
  rw [hescape, hbold] at htokens
  exact htokens

end Token

end HtmlMinify
