import HtmlMinify.Document.Walk

/-! # Changes of a document

Adding, linking and changing nodes, taking nodes out of the tree (`detach`), and joining adjacent
texts (`normalize`).
-/

namespace HtmlMinify.Edit

/-- Looks at the document without changing it. -/
def read {α : Type} (look : Document → Except DocumentError α) : Edit α := do
  match look (← get) with
  | .ok a => pure a
  | .error e => throw e

/-- The node with this id. -/
def node (id : NodeId) : Edit Node :=
  read (·.node id)

/-- Changes the node with this id. -/
def alter (id : NodeId) (change : Node → Node) : Edit Unit := do
  let _ ← node id
  modify fun doc => { doc with nodes := doc.nodes.modify id change }

/-- Adds a node without links; its id is the next free one. -/
def add (content : Content) : Edit NodeId := do
  let id := (← get).size
  modify fun doc => { doc with nodes := doc.nodes.push { toContent := content } }
  return id

/-- Makes `child` the last child of `parent`. -/
def append (parent child : NodeId) : Edit Unit := do
  let owner ← node parent
  if owner.isVoid then throw (.voidElementChild owner.name)
  alter child fun node => { node with parent := some parent }
  alter parent fun node => { node with children := node.children ++ [child] }

/-- Adds a node as the last child of `parent`: its id. -/
def addBelow (parent : NodeId) (content : Content) : Edit NodeId := do
  let id ← add content
  append parent id
  return id

/-- Adds a text below `parent`: the id of the node that holds it. A text that is the last child
grows. -/
def addTextBelow (parent : NodeId) (value : String) : Edit NodeId := do
  match (← node parent).children.getLast? with
  | none => addBelow parent (.leaf .text value)
  | some last =>
    if (← node last).isText then
      alter last fun node => { node with value := node.value ++ value }
      return last
    else addBelow parent (.leaf .text value)

/-- Puts an id at the end of a child list, with no check of it and no link back. -/
def link (parent child : NodeId) : Edit Unit :=
  alter parent fun node => { node with children := node.children ++ [child] }

/-! ## Taking nodes out -/

/-- Removes the parent links of the listed nodes in order: the nodes that had one, with it. -/
def release : List NodeId → Edit (List (NodeId × NodeId))
  | [] => pure []
  | id :: ids => do
    match (← node id).parent with
    | none => release ids
    | some parent => do
      alter id fun node => { node with parent := none }
      return (id, parent) :: (← release ids)

/-- Drops the listed ids from the child lists of the parents: how many entries went. -/
def prune (released : List NodeId) : List NodeId → Edit Nat
  | [] => pure 0
  | parent :: parents => do
    let children := (← node parent).children
    let kept := children.filter fun child => !released.contains child
    alter parent fun node => { node with children := kept }
    return children.length - kept.length + (← prune released parents)

/-- Takes every listed node out of its parent: how many child list entries went. -/
def detach (ids : List NodeId) : Edit Nat := do
  let links ← release ids
  prune (links.map (·.1)) (links.map (·.2)).eraseDups

/-! ## Joining texts -/

/-- Joins runs of texts among siblings into their first one and drops empty texts, given the text
that the next one would join: the siblings that stay, and how many do not. -/
def mergeTexts : Option NodeId → List NodeId → Edit (List NodeId × Nat)
  | _, [] => pure ([], 0)
  | open?, id :: ids => do
    let child ← node id
    if !child.isText then
      let (kept, removed) ← mergeTexts none ids
      return (id :: kept, removed)
    else if child.value.isEmpty then
      alter id fun node => { node with parent := none }
      let (kept, removed) ← mergeTexts open? ids
      return (kept, removed + 1)
    else
      match open? with
      | none => do
        let (kept, removed) ← mergeTexts (some id) ids
        return (id :: kept, removed)
      | some first => do
        alter id fun node => { node with parent := none, value := "" }
        alter first fun node => { node with value := node.value ++ child.value }
        let (kept, removed) ← mergeTexts open? ids
        return (kept, removed + 1)

/-- Joins texts below each listed node: how many text nodes went. -/
def mergeBelow : List NodeId → Edit Nat
  | [] => pure 0
  | parent :: parents => do
    let children := (← node parent).children
    alter parent fun node => { node with children := [] }
    let (kept, removed) ← mergeTexts none children
    alter parent fun node => { node with children := kept }
    return removed + (← mergeBelow parents)

/-- Joins adjacent texts and drops empty ones everywhere: how many text nodes went. -/
def normalize : Edit Nat := do
  mergeBelow (← read Document.descendants)

end HtmlMinify.Edit
