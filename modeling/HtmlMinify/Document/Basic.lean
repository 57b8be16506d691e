import HtmlMinify.Node

/-! # Documents

A document is a table of nodes with a root. A node's position in the table is its id and never
changes: a node that is taken out of the tree stays in the table, unreachable.

Changes to a document are `Edit`s: they may fail, and what they changed before the failure stays
changed.
-/

namespace HtmlMinify

/-- What can go wrong with a document. -/
inductive DocumentError where
  | nodeNotFound (id : NodeId)
  | voidElementChild (tag : String)
  | duplicateAttribute (tag key : String)
  | depthExceeded (current max : Nat)
deriving Repr, DecidableEq, Inhabited

/-- The wording of an error. -/
def DocumentError.message : DocumentError → String
  | nodeNotFound id => "Node not found: " ++ toString id
  | voidElementChild tag => "Void element <" ++ tag ++ "> cannot have children"
  | duplicateAttribute tag key => "Duplicate attribute `" ++ key ++ "` on <" ++ tag ++ ">"
  | depthExceeded current max =>
    "Maximum nesting depth exceeded: " ++ toString current ++ " > " ++ toString max

/-- A table of nodes and the id of the root, if there is one. -/
structure Document where
  nodes : Array Node := #[]
  root : Option NodeId := none
deriving Repr, DecidableEq, Inhabited

/-- A change of a document that gives a result or fails. -/
abbrev Edit (α : Type) := ExceptT DocumentError (StateM Document) α

/-- Applies a change: the result or the error, and the document as the change leaves it. -/
def Edit.apply {α : Type} (edit : Edit α) (doc : Document) : Except DocumentError α × Document :=
  (ExceptT.run edit).run doc

namespace Document

/-- No nodes and no root. -/
def empty : Document := {}

/-- Number of nodes, unreachable ones included. -/
def size (doc : Document) : Nat :=
  doc.nodes.size

/-- The node with this id. -/
def node (doc : Document) (id : NodeId) : Except DocumentError Node :=
  match doc.nodes[id]? with
  | some node => .ok node
  | none => .error (.nodeNotFound id)

/-- The children of a node, in order. -/
def children (doc : Document) (id : NodeId) : Except DocumentError (List (NodeId × Node)) := do
  let node ← doc.node id
  node.children.mapM fun child => do return (child, ← doc.node child)

/-- The parent of a node, if its link is set. -/
def parent (doc : Document) (id : NodeId) : Except DocumentError (Option NodeId) := do
  let node ← doc.node id
  match node.parent with
  | none => return none
  | some parent => do
    let _ ← doc.node parent
    return some parent

/-- A document node alone. -/
def new : Document :=
  { nodes := #[{ toContent := .document }], root := some 0 }

end Document

end HtmlMinify
