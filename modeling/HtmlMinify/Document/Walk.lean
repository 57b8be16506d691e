import HtmlMinify.Document.Basic
import HtmlMinify.Forest

/-! # Walks through a document

Walks follow child links from a node in document order, each node before its children. Links can be
set without check, so a walk may meet a node twice, or an id without a node, which is an error.

Walks descend at most `size + 1` levels. That is no restriction for a document without circular
links: a path through it has at most `size` nodes, and one more step if it ends at an id
without a node.
-/

namespace HtmlMinify.Document

/-- The most levels that a path without repetition can have. -/
def maxLevels (doc : Document) : Nat :=
  doc.size + 1

/-! ## Visiting nodes -/

/-- A way to walk: which nodes are entered, and what is required of each node met. -/
structure Tour where
  enter : Node → Bool := fun _ => true
  check : NodeId → Node → Except DocumentError Unit := fun _ _ => .ok ()

/-- Visits siblings in order, with `below` for the children of each. -/
def visitLevel (doc : Document) (tour : Tour)
    (below : List NodeId → Except DocumentError (List (NodeId × Node))) :
    List NodeId → Except DocumentError (List (NodeId × Node))
  | [] => .ok []
  | id :: ids => do
    let node ← doc.node id
    tour.check id node
    let inner ← if tour.enter node then below node.children else .ok []
    let after ← visitLevel doc tour below ids
    return (id, node) :: (inner ++ after)

/-- Visits the given nodes and what is below them, a number of levels deep. -/
def visit (doc : Document) (tour : Tour) :
    Nat → List NodeId → Except DocumentError (List (NodeId × Node))
  | 0, _ => .ok []
  | levels + 1, ids => visitLevel doc tour (visit doc tour levels) ids

/-- The nodes met from `start` on, in document order. -/
def visitFrom (doc : Document) (tour : Tour) (start : NodeId) :
    Except DocumentError (List (NodeId × Node)) :=
  doc.visit tour doc.maxLevels [start]

/-- The nodes met from the root on; none without a root. -/
def visitAll (doc : Document) (tour : Tour) : Except DocumentError (List (NodeId × Node)) :=
  match doc.root with
  | none => .ok []
  | some root => doc.visitFrom tour root

/-- The reachable nodes' ids in document order, the root first. -/
def descendants (doc : Document) : Except DocumentError (List NodeId) :=
  return (← doc.visitAll {}).map (·.1)

/-- The reachable elements' ids, of one tag or of all. -/
def elements (doc : Document) (tag : Option String) : Except DocumentError (List NodeId) := do
  let wanted (node : Node) : Bool :=
    match tag with
    | some tag => node.isTag tag
    | none => node.isElement
  return ((← doc.visitAll {}).filter fun (_, node) => wanted node).map (·.1)

/-- The ids of the nodes met from `start` on. -/
def traverse (doc : Document) (start : NodeId) : Except DocumentError (List NodeId) :=
  return (← doc.visitFrom {} start).map (·.1)

/-- The nodes with children, in document order, outside elements whose text counts as written. -/
def freeParents (doc : Document) : Except DocumentError (List NodeId) := do
  let free (node : Node) : Bool := !node.children.isEmpty && !node.preservesText
  return ((← doc.visitAll { enter := free }).filter fun (_, node) => free node).map (·.1)

/-- The text nodes whose whitespace does not count as written. -/
def freeTexts (doc : Document) : Except DocumentError (List NodeId) := do
  let perParent ← (← doc.freeParents).mapM fun parent => do
    return ((← doc.children parent).filter fun (_, child) => child.isText).map (·.1)
  return perParent.flatten

/-! ## Reading off the tree -/

/-- The trees of siblings, with `below` for the children of each. -/
def treeLevel (doc : Document) (below : List NodeId → Except DocumentError (Forest Content)) :
    List NodeId → Except DocumentError (Forest Content)
  | [] => .ok .nil
  | id :: ids => do
    let node ← doc.node id
    let children ← below node.children
    let siblings ← treeLevel doc below ids
    return .node node.toContent children siblings

/-- The trees below the given nodes, a number of levels deep. -/
def trees (doc : Document) : Nat → List NodeId → Except DocumentError (Forest Content)
  | 0, _ => .ok .nil
  | levels + 1, ids => treeLevel doc (trees doc levels) ids

/-- The tree that is reachable from the root, ids aside; empty without a root. -/
def tree (doc : Document) : Except DocumentError (Forest Content) :=
  doc.trees doc.maxLevels doc.root.toList

/-! ## Invariants -/

/-- Every child exists and links back. -/
def checkLinks (doc : Document) (parent : NodeId) : List NodeId → Except DocumentError Unit
  | [] => .ok ()
  | child :: rest => do
    let node ← doc.node child
    if node.parent = some parent then checkLinks doc parent rest
    else .error (.nodeNotFound child)

/-- Distinct attribute keys, no child below a void element, consistent links. -/
def checkNode (doc : Document) (id : NodeId) (node : Node) : Except DocumentError Unit :=
  match if node.isElement then node.attributes.firstDuplicate? else none with
  | some name => .error (.duplicateAttribute node.name name)
  | none =>
    if node.isVoid && !node.children.isEmpty then .error (.voidElementChild node.name)
    else checkLinks doc id node.children

/-- Every reachable node passes its check. -/
def validate (doc : Document) : Except DocumentError Unit := do
  let _ ← doc.visitAll { check := checkNode doc }
  return ()

end HtmlMinify.Document
