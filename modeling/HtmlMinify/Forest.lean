/-! # Forests

A forest is an ordered list of trees: a first node with the forest of its children and the forest
of the trees that follow it. Documents are read as forests, and written from them.
-/

namespace HtmlMinify

/-- An ordered list of trees with labels in `α`. -/
inductive Forest (α : Type) where
  | nil
  | node (label : α) (children siblings : Forest α)
deriving Repr, DecidableEq, Inhabited

namespace Forest

variable {α β : Type}

/-- Number of nodes. -/
def size : Forest α → Nat
  | nil => 0
  | node _ children siblings => 1 + children.size + siblings.size

/-- Labels of the roots, in order. -/
def roots : Forest α → List α
  | nil => []
  | node label _ siblings => label :: siblings.roots

/-- Label of the first root. -/
def head? : Forest α → Option α
  | nil => none
  | node label _ _ => some label

/-- The same shape with labels changed by `f`. -/
def map (f : α → β) : Forest α → Forest β
  | nil => nil
  | node label children siblings => node (f label) (children.map f) (siblings.map f)

/-- One forest after the other. -/
def append : Forest α → Forest α → Forest α
  | nil, after => after
  | node label children siblings, after => node label children (siblings.append after)

instance : Append (Forest α) := ⟨append⟩

/-- All labels in document order: each before those of its children. -/
def toList : Forest α → List α
  | nil => []
  | node label children siblings => label :: (children.toList ++ siblings.toList)

/-- Trees given last first, in front of a forest. -/
def prependReversed : List (α × Forest α) → Forest α → Forest α
  | [], after => after
  | (label, children) :: earlier, after => prependReversed earlier (node label children after)

end Forest

end HtmlMinify
