import HtmlMinify.Proofs.ParsedDocuments
import HtmlMinify.Proofs.TagRecovery

/-!
# Pieces of markup on their own

A whole page is read back only if its tree is kept, but tags, comments and declarations can be looked
at one by one: whatever follows, reading takes exactly what was written. A start tag is read as it was
written if and only if no name without a value stands in front of a name that begins with `=`. Of the
nodes that reading makes, comments and declarations are always read as the same nodes again, however
they were spelled in the page.

## Main statements

* `StartTag.read?_writeStart_iff`: start tags, with any attributes and with or without quotes.
* `Document.next?_write_of_parse`: comments and declarations of a page that was read.
-/

namespace HtmlMinify

open Text

/-! ## Start tags -/

/-- What a value comes back as is nothing where nothing is written. -/
theorem Attribute.value_asRead {options : WriteOptions} {a : Attribute}
    (h : a.writesNoValue options = true) : (a.asRead options).value = none := by
  unfold writesNoValue at h
  unfold asRead
  split at h
  · next hvalue => exact hvalue
  · exact if_pos h

namespace StartTag

/-- A written start tag is read by its name, and then by what the scanner for attributes finds. -/
theorem read?_name_append (options : WriteOptions) {c : Content} (hname : Tag.IsName c.name)
    (rest : List Char) :
    read? (c.name.toList ++ (c.attributes.toList.flatMap (fun a => (a.write options).toList) ++
        (c.tagEnd options ++ rest))) =
      (readAttributes? [] (c.attributes.toList.flatMap (fun a => (a.write options).toList) ++
        (c.tagEnd options ++ rest))).map fun r =>
          (⟨c.name, Attributes.ofList r.1.reverse, r.2.1⟩, r.2.2) := by
  obtain ⟨htake, hdrop⟩ := hname.takeWhile_append _ (c.endsName_head?_attributes options rest)
  rw [read?, htake, hdrop, String.ofList_toList]
  cases readAttributes? [] (c.attributes.toList.flatMap (fun a => (a.write options).toList) ++
    (c.tagEnd options ++ rest)) with
  | none => rfl
  | some result => rfl

/-- **A start tag is read as it was written if and only if its attributes are apart.** -/
theorem read?_writeStart_iff (options : WriteOptions) (c : Content) (hname : Tag.IsName c.name)
    (has : c.attributes.Named) (rest : List Char) :
    ∃ body, (c.writeStart options).toList = '<' :: body ∧
      (read? (body ++ rest) =
          some (⟨c.name, c.attributes.asRead options, c.selfClosing⟩, rest) ↔
        c.attributes.Separate options) := by
  refine ⟨_, Content.toList_writeStart options c, ?_⟩
  rw [List.append_assoc, List.append_assoc, read?_name_append options hname]
  have hlast : ∀ a ∈ c.attributes.toList.getLast?, Follows options a (c.tagEnd options ++ rest) :=
    fun a ha => follows_tagEnd ha rest
  constructor
  · intro hread
    obtain ⟨⟨found, selfClosing, unread⟩, hfound, hsame⟩ := Option.map_eq_some_iff.mp hread
    have hattributes := congrArg (·.1.attributes.toList) hsame
    have hexpected : ∀ a ∈ c.attributes.toList,
        (a.asRead options).key = a.key ∧
          (a.writesNoValue options = true → (a.asRead options).value = none) :=
      fun a _ => ⟨Attribute.key_asRead options a, Attribute.value_asRead⟩
    exact isChain_of_readAttributes? has.1 hlast hfound
      (List.forall₂_map_right_iff.mpr (List.forall₂_same.mpr hexpected)) hattributes
  · intro hseparate
    rw [readAttributes?_flatMap_write has.1 hseparate hlast, readAttributes?_tagEnd]
    simp [Attributes.ofList_asRead has.2]

/-- A tag that needs a bit of everything: an escaped value, an empty one and a name with `=`. -/
def oddTag : Content :=
  .element "img" ⟨[⟨"title", some "a\"'"⟩, ⟨"=b", some ""⟩, ⟨"c", none⟩]⟩ true

/-- A tag whose second name is read as the value of the first. -/
def clashingTag : Content :=
  .element "p" ⟨[⟨"a", some ""⟩, ⟨"=b", none⟩]⟩ false

/-- A start tag with odd names is read as it is, and one whose names run together is not. -/
theorem read?_writeStart_iff_oddTag :
    (Tag.IsName oddTag.name ∧ oddTag.attributes.Named ∧
      read? "img title=\"a&quot;'\" =b c/>x>".toList =
        some (⟨"img", ⟨[⟨"title", some "a&quot;'"⟩, ⟨"=b", none⟩, ⟨"c", none⟩]⟩, true⟩,
          "x>".toList)) ∧
      Tag.IsName clashingTag.name ∧ clashingTag.attributes.Named ∧
      read? "p a =b>x>".toList ≠
        some (⟨"p", ⟨[⟨"a", none⟩, ⟨"=b", none⟩]⟩, false⟩, "x>".toList) := by
  have hodd : Tag.IsName oddTag.name ∧ oddTag.attributes.Named := by decide
  have hclashing : Tag.IsName clashingTag.name ∧ clashingTag.attributes.Named := by decide
  obtain ⟨body, hbody, hread⟩ :=
    read?_writeStart_iff ⟨true, false⟩ oddTag hodd.1 hodd.2 "x>".toList
  obtain ⟨body', hbody', hread'⟩ :=
    read?_writeStart_iff ⟨true, false⟩ clashingTag hclashing.1 hclashing.2 "x>".toList
  have hwritten : body = "img title=\"a&quot;'\" =b c/>".toList := (List.cons.inj hbody).2.symm
  have hwritten' : body' = "p a =b>".toList := (List.cons.inj hbody').2.symm
  rw [hwritten] at hread
  rw [hwritten'] at hread'
  exact ⟨⟨hodd.1, hodd.2, hread.mpr (by decide)⟩, hclashing.1, hclashing.2,
    mt hread'.mp (by decide)⟩

end StartTag

/-! ## Comments and declarations -/

/-- The token of a comment or declaration makes the same node. -/
theorem Token.leaf?_leafToken {c : Content} (hc : c.isDeclaration = true) :
    c.leafToken.leaf? = some (.leaf c.kind c.value) := by
  unfold Content.isDeclaration at hc
  unfold Content.leafToken
  split at hc
  · next hkind => rw [hkind, Token.leaf?]
  · next hkind => rw [hkind, Token.leaf?]
  · next hkind => rw [hkind, Token.leaf?]
  · next hkind => rw [hkind, Token.leaf?]
  · cases hc

namespace Forest

/-- Of a comment or declaration its own markup is written, wherever it stands. -/
theorem toList_write_of_isDeclaration {label : Placed} (h : label.isDeclaration = true)
    (options : WriteOptions) (quirks : Bool) (outer : List String) (foreign : Bool)
    (closer : Closer) :
    ((node label nil nil).write options quirks outer foreign closer).toList = label.writeLeaf := by
  unfold Content.isDeclaration at h
  unfold Content.writeLeaf
  rw [write, write, String.append_empty]
  split at h
  · next hkind => simp [hkind]
  · next hkind => simp [hkind]
  · next hkind => simp [hkind]
  · next hkind => simp [hkind]
  · cases h

/-- The nodes of a forest that was built can stand in markup. -/
theorem Has.spelled {f below : NumberedForest} {id : NodeId} {c : Content} (h : f.Has id c below)
    {outer : List String} (hbuilt : f.contents.Built outer) : c.Spelled := by
  induction h generalizing outer with
  | here => exact hbuilt.1.spelled
  | inside _ ih => exact ih hbuilt.2.1
  | after _ ih => exact ih hbuilt.2.2

end Forest

namespace Document

variable {doc : Document} {maxDepth : Nat} {page : String}

/-- Of a page that was read, every node but the root can stand in markup. -/
theorem spelled_of_parse (h : Document.parse maxDepth page = .ok doc) {id : NodeId} {node : Node}
    (hnode : doc.node id = .ok node) (hkind : node.kind ≠ .document) : node.Spelled := by
  obtain ⟨f, hparse, -, -, hhas⟩ := exists_has_of_parse h
  obtain ⟨below, hhas⟩ := hhas hnode
  have hbuilt := Forest.built_of_parse hparse
  rw [← Forest.contents_number 1 f] at hbuilt
  generalize hcontent : node.toContent = c at hhas
  cases hhas with
  | here => exact absurd (congrArg Content.kind hcontent) hkind
  | inside hinside => exact hinside.spelled hbuilt
  | after hafter => cases hafter

/-- **The comments and declarations of a page that was read are read as the same nodes again**,
wherever they are written and whatever follows. -/
theorem next?_write_of_parse (h : Document.parse maxDepth page = .ok doc) {id : NodeId}
    {node : Node} (hnode : doc.node id = .ok node)
    (hkind : node.kind ∈ [.comment, .cdata, .instruction, .doctype]) (options : WriteOptions)
    (quirks : Bool) (outer : List String) (foreign : Bool) (closer : Closer) (rest : List Char) :
    ∃ token,
      Token.next? none
          (((Forest.node (doc.placed node) .nil .nil).write options quirks outer foreign
            closer).toList ++ rest) = some (token, rest) ∧
        token.leaf? = some (.leaf node.kind node.value) := by
  have hleaf : node.isDeclaration = true := by
    unfold Content.isDeclaration
    simp only [List.mem_cons, List.not_mem_nil, or_false] at hkind
    rcases hkind with hkind | hkind | hkind | hkind <;> rw [hkind]
  have hspelled : node.Spelled := by
    refine spelled_of_parse h hnode ?_
    intro hdocument
    rw [hdocument] at hkind
    revert hkind
    decide
  refine ⟨node.leafToken, ?_, Token.leaf?_leafToken hleaf⟩
  rw [Forest.toList_write_of_isDeclaration hleaf]
  exact Token.next?_writeLeaf hleaf hspelled rest

/-- Comments that were no comments, one that ends at once and one that never ends. -/
def oddComments : Forest Content :=
  .node (.leaf .comment "x") .nil <| .node (.leaf .comment " y") .nil <|
    .node (.leaf .comment "") .nil <| .node (.leaf .cdata "z") .nil <|
    .node (.leaf .comment "u") .nil .nil

/-- The sample is read from its markup. -/
theorem parse_oddComments :
    Document.parse 0 "<!x></ y><!---><![CDATA[z]]><!--u" = .ok (.ofForest oddComments) :=
  parse_eq_ofForest
    (Builder.run_log_of_step "</ y><!---><![CDATA[z]]><!--u".toList rfl rfl <|
      Builder.run_log_of_step "<!---><![CDATA[z]]><!--u".toList rfl rfl <|
      Builder.run_log_of_step "<![CDATA[z]]><!--u".toList rfl rfl <|
      Builder.run_log_of_step "<!--u".toList rfl rfl <|
      Builder.run_log_of_step [] rfl rfl Builder.run_log_nil).1
    rfl

/-- Two comments that were not written as such are read as comments. -/
theorem next?_write_of_parse_oddComments :
    Document.parse 0 "<!x></ y><!---><![CDATA[z]]><!--u" = .ok (.ofForest oddComments) ∧
      (ofForest oddComments).node 2 = .ok ⟨.leaf .comment " y", some 0, []⟩ ∧
      (ofForest oddComments).node 5 = .ok ⟨.leaf .comment "u", some 0, []⟩ ∧
      (∃ token, Token.next? none "<!-- y-->-->".toList = some (token, "-->".toList) ∧
        token.leaf? = some (.leaf .comment " y")) ∧
      ∃ token, Token.next? none "<!--u-->-->".toList = some (token, "-->".toList) ∧
        token.leaf? = some (.leaf .comment "u") := by
  have hsecond : (ofForest oddComments).node 2 = .ok ⟨.leaf .comment " y", some 0, []⟩ := rfl
  have hlast : (ofForest oddComments).node 5 = .ok ⟨.leaf .comment "u", some 0, []⟩ := rfl
  exact ⟨parse_oddComments, hsecond, hlast,
    next?_write_of_parse parse_oddComments hsecond (by decide) {} true [] false .endOfPage _,
    next?_write_of_parse parse_oddComments hlast (by decide) {} true [] false .endOfPage _⟩

end Document

end HtmlMinify
