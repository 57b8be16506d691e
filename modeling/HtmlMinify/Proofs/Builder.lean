import HtmlMinify.Proofs.Trees

/-!
# The builder as a path into a forest

A builder is the forest built so far, opened along its last branch. Reading only ever adds at the end
of that branch: `push` adds finished trees there, `close` ends elements of the branch. What is known
of quirks mode has no part in this, so the laws are stated up to it (`bare`).

## Main statements

* `Builder.close_open`: an element that was opened, filled and ended is a finished tree.
* `Builder.openTags_close`: ending elements leaves the outer ones open.
* `Builder.addText_addText`: texts that come one after the other are one text.
* `Builder.run_of_step`: what one token does to a run.
-/

namespace HtmlMinify

/-! ## Forests, last tree first -/

namespace Forest

variable {α : Type}

/-- The trees of the forest, last first, in front of earlier ones. -/
def onto : Forest α → List (α × Forest α) → List (α × Forest α)
  | nil, earlier => earlier
  | node label children siblings, earlier => siblings.onto ((label, children) :: earlier)

@[simp]
theorem nil_append (f : Forest α) : nil ++ f = f := rfl

/-- Trees in front of a forest come after the first node of theirs. -/
@[simp]
theorem node_append (label : α) (children siblings f : Forest α) :
    node label children siblings ++ f = node label children (siblings ++ f) := rfl

@[simp]
theorem append_nil (f : Forest α) : f ++ nil = f := by
  induction f with
  | nil => rfl
  | node label children siblings _ ih => rw [node_append, ih]

/-- Putting trees on a list and taking them off again. -/
theorem prependReversed_onto (f : Forest α) (earlier : List (α × Forest α)) (after : Forest α) :
    prependReversed (f.onto earlier) after = prependReversed earlier (f ++ after) := by
  induction f generalizing earlier with
  | nil => rfl
  | node label children siblings _ ih => rw [onto, ih, prependReversed, node_append]

/-- Trees in front of two forests come in front of the first one. -/
theorem prependReversed_append (earlier : List (α × Forest α)) (f g : Forest α) :
    prependReversed earlier (f ++ g) = prependReversed earlier f ++ g := by
  induction earlier generalizing f with
  | nil => rfl
  | cons tree earlier ih => rw [prependReversed, prependReversed, ← node_append, ih]

end Forest

namespace Builder

/-! ## What is known of quirks mode -/

/-- The builder without what it knows of quirks mode. -/
def bare (b : Builder) : Builder :=
  { b with quirks := true, decided := false }

@[simp]
theorem openTags_bare (b : Builder) : b.bare.openTags = b.openTags := rfl

/-- What is known of quirks mode has no part in a change of children. -/
theorem bare_onChildren (change : List Tree → List Tree) (b : Builder) :
    (b.onChildren change).bare = b.bare.onChildren change := by
  unfold onChildren bare
  cases b.frames <;> rfl

theorem bare_insert (tree : Tree) (b : Builder) : (b.insert tree).bare = b.bare.insert tree :=
  bare_onChildren _ b

theorem bare_close (n : Nat) (b : Builder) : (b.close n).bare = b.bare.close n := by
  induction n generalizing b with
  | zero => rfl
  | succ n ih =>
    cases h : b.frames with
    | nil =>
      have hbare : b.bare.frames = [] := h
      simp only [close, h, hbare]
    | cons frame outer =>
      have hbare : b.bare.frames = frame :: outer := h
      simp only [close, h, hbare]
      rw [ih, bare_insert]
      rfl

/-- Nothing but what is known of quirks mode changes when a token is noted. -/
theorem bare_observe (token : Token) (b : Builder) : (b.observe token).bare = b.bare := by
  unfold observe bare
  split
  · rfl
  · rfl
  · rfl
  · split <;> rfl
  · split <;> rfl
  · rfl
  · rfl

/-! ## Adding trees -/

/-- The children of the innermost open element so far, or the trees at the top, last first. -/
def children (b : Builder) : List Tree :=
  match b.frames with
  | [] => b.done
  | frame :: _ => frame.done

/-- Adds the trees of a forest in the innermost open element. -/
def push (f : Forest Content) (b : Builder) : Builder :=
  b.onChildren f.onto

/-- The last child so far is a text, which a text that comes next would join. -/
def endsInText (b : Builder) : Bool :=
  b.children.head?.any (·.1.isText)

/-- Two changes of children one after the other are one change. -/
theorem onChildren_onChildren (change change' : List Tree → List Tree) (b : Builder) :
    (b.onChildren change).onChildren change' = b.onChildren (change' ∘ change) := by
  unfold onChildren
  cases h : b.frames <;> rfl

/-- A change of children opens no element, and ends none. -/
@[simp]
theorem openTags_onChildren (change : List Tree → List Tree) (b : Builder) :
    (b.onChildren change).openTags = b.openTags := by
  unfold onChildren openTags
  cases h : b.frames <;> simp

@[simp]
theorem openTags_insert (tree : Tree) (b : Builder) : (b.insert tree).openTags = b.openTags :=
  openTags_onChildren _ b

/-- The children are changed as asked. -/
@[simp]
theorem children_onChildren (change : List Tree → List Tree) (b : Builder) :
    (b.onChildren change).children = change b.children := by
  unfold onChildren children
  cases h : b.frames <;> rfl

theorem push_nil (b : Builder) : b.push .nil = b := by
  obtain ⟨frames, done, quirks, decided⟩ := b
  cases frames <;> rfl

/-- Pushing a forest inserts its trees one after the other. -/
theorem push_node (c : Content) (below siblings : Forest Content) (b : Builder) :
    b.push (.node c below siblings) = (b.insert (c, below)).push siblings := by
  unfold push insert
  rw [onChildren_onChildren]
  rfl

/-- A builder ends in a text if what was inserted last is one. -/
theorem endsInText_insert (c : Content) (below : Forest Content) (b : Builder) :
    (b.insert (c, below)).endsInText = c.isText := by
  rw [endsInText, insert, children_onChildren]
  rfl

theorem endsInText_bare (b : Builder) : b.bare.endsInText = b.endsInText := rfl

/-- A text after something else is a node of its own. -/
theorem onChildren_joinText {b : Builder} (h : b.endsInText = false) (value : String) :
    b.onChildren (joinText value) = b.insert (.leaf .text value, .nil) := by
  have hjoin : joinText value b.children = (.leaf .text value, .nil) :: b.children := by
    unfold endsInText at h
    cases hchildren : b.children with
    | nil => rfl
    | cons tree earlier =>
      obtain ⟨last, below⟩ := tree
      rw [hchildren] at h
      have hlast : last.isText = false := by simpa using h
      rw [joinText, if_neg (by simp [hlast])]
  unfold children at hjoin
  unfold insert onChildren
  cases hframes : b.frames with
  | nil =>
    rw [hframes] at hjoin
    simp only [hjoin]
  | cons frame outer =>
    rw [hframes] at hjoin
    simp only [hjoin]

/-- Adds a text where the builder stands. -/
def addText (value : String) (b : Builder) : Builder :=
  (b.observe (.text value)).onChildren (joinText value)

/-- Two texts one after the other are one text. -/
theorem joinText_joinText (first second : String) (earlier : List Tree) :
    joinText second (joinText first earlier) = joinText (first ++ second) earlier := by
  cases earlier with
  | nil => rfl
  | cons tree earlier =>
    obtain ⟨last, below⟩ := tree
    by_cases h : last.isText = true
    · have hgrown : Content.isText { last with value := last.value ++ first } = true := h
      rw [joinText, if_pos h, joinText, if_pos hgrown, joinText, if_pos h, String.append_assoc]
    · have hleaf : (Content.leaf .text first).isText = true := rfl
      rw [joinText, if_neg h, joinText, if_pos hleaf, joinText, if_neg h]
      rfl

/-- Noting a token and changing children can change places. -/
theorem observe_onChildren (token : Token) (change : List Tree → List Tree) (b : Builder) :
    (b.onChildren change).observe token = (b.observe token).onChildren change := by
  unfold observe onChildren
  cases h : b.frames with
  | nil => cases token <;> simp only [h] <;> split <;> simp [h]
  | cons frame outer => cases token <;> simp only [h] <;> split <;> simp [h]

/-- Two texts together are blank if both of them are. -/
theorem isBlank_append (first second : String) :
    Text.isBlank (first ++ second) = (Text.isBlank first && Text.isBlank second) := by
  simp [Text.isBlank]

/-- Two texts one after the other say about quirks mode what they say together. -/
theorem observe_text_text (first second : String) (b : Builder) :
    (b.observe (.text first)).observe (.text second) = b.observe (.text (first ++ second)) := by
  simp only [observe, isBlank_append]
  by_cases hfirst : Text.isBlank first = true
  · by_cases hsecond : Text.isBlank second = true
    · simp [hfirst, hsecond]
    · simp [hfirst, hsecond]
  · by_cases hsecond : Text.isBlank second = true
    · simp [hfirst, hsecond]
    · simp [hfirst, hsecond]

/-- **Texts that come one after the other are one text.** -/
theorem addText_addText (first second : String) (b : Builder) :
    (b.addText first).addText second = b.addText (first ++ second) := by
  unfold addText
  rw [observe_onChildren, observe_text_text, onChildren_onChildren]
  congr 1
  funext earlier
  exact joinText_joinText first second earlier

/-! ## Ending elements -/

/-- Ending some elements and then some more is ending all of them. -/
theorem close_add (m n : Nat) (b : Builder) : b.close (m + n) = (b.close m).close n := by
  induction m generalizing b with
  | zero => rw [Nat.zero_add, close]
  | succ m ih =>
    rw [Nat.add_right_comm, close, close]
    cases h : b.frames with
    | nil =>
      cases n with
      | zero => rfl
      | succ n => simp [close, h]
    | cons frame outer => exact ih _

/-- The elements that are ended are the innermost ones. -/
theorem openTags_close (n : Nat) (b : Builder) : (b.close n).openTags = b.openTags.drop n := by
  induction n generalizing b with
  | zero => rfl
  | succ n ih =>
    rw [close]
    cases h : b.frames with
    | nil => simp [openTags, h]
    | cons frame outer =>
      simp only
      rw [ih, openTags_insert]
      simp [openTags, h]

/-- Ending elements down to known tags, given which are open inside them. -/
theorem closeTo_of_openTags {b : Builder} {inner outer : List String}
    (h : b.openTags = inner ++ outer) : b.closeTo outer = b.close inner.length := by
  have hlength : b.frames.length = inner.length + outer.length := by
    have := congrArg List.length h
    simpa [openTags] using this
  rw [closeTo, hlength, Nat.add_sub_cancel]

/-- **An element that was opened, filled and ended is a finished tree.** -/
theorem close_open (c : Content) (f : Forest Content) (b : Builder) :
    (push f { b with frames := { content := c } :: b.frames }).close 1 = b.insert (c, f) := by
  have hpush : push f { b with frames := { content := c } :: b.frames } =
      { b with frames := { content := c, done := f.onto [] } :: b.frames } := rfl
  rw [hpush]
  simp only [close]
  rw [Forest.prependReversed_onto, Forest.append_nil]
  rfl

/-! ## Flags and depth -/

@[simp]
theorem quirks_onChildren (change : List Tree → List Tree) (b : Builder) :
    (b.onChildren change).quirks = b.quirks := by
  unfold onChildren
  split <;> rfl

@[simp]
theorem decided_onChildren (change : List Tree → List Tree) (b : Builder) :
    (b.onChildren change).decided = b.decided := by
  unfold onChildren
  split <;> rfl

/-- Ending elements says nothing about quirks mode. -/
@[simp]
theorem quirks_close (n : Nat) (b : Builder) : (b.close n).quirks = b.quirks := by
  induction n generalizing b with
  | zero => rfl
  | succ n ih =>
    rw [close]
    split
    · rfl
    · rw [ih, insert, quirks_onChildren]

@[simp]
theorem decided_close (n : Nat) (b : Builder) : (b.close n).decided = b.decided := by
  induction n generalizing b with
  | zero => rfl
  | succ n ih =>
    rw [close]
    split
    · rfl
    · rw [ih, insert, decided_onChildren]

/-- There is one frame for each open element. -/
theorem length_frames (b : Builder) : b.frames.length = b.openTags.length := by
  simp [openTags]

/-- Nothing is open when as many elements are ended as were open. -/
theorem frames_close_length (b : Builder) : (b.close b.frames.length).frames = [] := by
  rw [← List.length_eq_zero_iff, length_frames, openTags_close, length_frames, List.drop_length,
    List.length_nil]

/-- Noting a token opens no element, and ends none. -/
@[simp]
theorem openTags_observe (token : Token) (b : Builder) :
    (b.observe token).openTags = b.openTags := by
  rw [← openTags_bare, bare_observe, openTags_bare]

/-- Nothing that comes later opens the question of quirks mode again. -/
theorem decided_observe {b : Builder} (h : b.decided = true) (token : Token) :
    (b.observe token).decided = true := by
  unfold observe
  split
  · exact h
  · exact h
  · exact h
  · split
    · exact h
    · rfl
  · rw [if_pos h]
    exact h
  · rfl
  · rfl

/-! ## Runs -/

/-- A token that is taken without error leaves the rest to be read. -/
theorem run_of_step {maxDepth : Nat} {b b' : Builder} {raw raw' : Option String}
    {input rest : List Char} {token : Token} (h : Token.next? raw input = some (token, rest))
    (hstep : b.step maxDepth token = .ok (b', raw')) :
    run maxDepth b raw input = run maxDepth b' raw' rest := by
  rw [run]
  split
  · next hnone =>
    rw [h] at hnone
    cases hnone
  · next token' rest' hsome =>
    rw [h] at hsome
    cases hsome
    rw [hstep]

/-- A token that is refused ends the run. -/
theorem run_of_error {maxDepth : Nat} {b : Builder} {raw : Option String} {input rest : List Char}
    {token : Token} {e : DocumentError} (h : Token.next? raw input = some (token, rest))
    (hstep : b.step maxDepth token = .error e) : run maxDepth b raw input = .error e := by
  rw [run]
  split
  · next hnone =>
    rw [h] at hnone
    cases hnone
  · next token' rest' hsome =>
    rw [h] at hsome
    cases hsome
    rw [hstep]

/-- The run ends where no token is left. -/
theorem run_of_next?_none {maxDepth : Nat} {b : Builder} {raw : Option String} {input : List Char}
    (h : Token.next? raw input = none) : run maxDepth b raw input = .ok b := by
  rw [run]
  split
  · rfl
  · next hsome =>
    rw [h] at hsome
    cases hsome

/-- Only the next token counts for what is read first. -/
theorem run_congr_next? {maxDepth : Nat} {b : Builder} {raw raw' : Option String}
    {input : List Char} (h : Token.next? raw input = Token.next? raw' input) :
    run maxDepth b raw input = run maxDepth b raw' input := by
  cases hnext : Token.next? raw input with
  | none =>
    rw [run_of_next?_none hnext, run_of_next?_none (h ▸ hnext)]
  | some result =>
    obtain ⟨token, rest⟩ := result
    cases hstep : b.step maxDepth token with
    | error e => rw [run_of_error hnext hstep, run_of_error (h ▸ hnext) hstep]
    | ok next => rw [run_of_step hnext hstep, run_of_step (h ▸ hnext) hstep]

/-- Nothing is left to be read. -/
theorem run_nil (maxDepth : Nat) (b : Builder) : run maxDepth b none [] = .ok b :=
  run_of_next?_none rfl

end Builder

end HtmlMinify
