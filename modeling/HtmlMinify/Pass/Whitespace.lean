import HtmlMinify.Document.Edit

/-! # Whitespace

Text inside elements that show it as written is never touched. Elsewhere runs of whitespace
collapse, whitespace next to a block goes, and texts of nothing else go.
-/

namespace HtmlMinify.Whitespace

open Text

/-- Gives a text node a value: 1 if it had another one. -/
def setText (id : NodeId) (change : String → String) : Edit Nat := do
  let old := (← Edit.node id).value
  let new := change old
  if new = old then return 0
  Edit.alter id fun node => { node with value := new }
  return 1

/-- Collapses whitespace in each listed text: how many changed. -/
def collapseTexts : List NodeId → Edit Nat
  | [] => pure 0
  | id :: ids => do
    let changed ← setText id collapse
    return changed + (← collapseTexts ids)

/-- Collapses whitespace in all texts that may change. -/
def collapseAll : Edit Nat := do
  collapseTexts (← Edit.read Document.freeTexts)

/-! ## Next to blocks -/

/-- The edge of a text is at a block: the sibling there is one, or there is none and the parent is
one. -/
def blockEdge (sibling : Option Content) (parent : Content) : Bool :=
  match sibling with
  | some c => c.isBlock
  | none => parent.isBlock

/-- Children of these hold markup only. -/
def holdsMarkupOnly (parent : Content) : Bool :=
  parent.kind = .document || parent.isTag "html" || parent.isTag "head"

/-- A text without the whitespace at its block edges; a blank one goes where only markup counts. -/
def trimmed (parent : Content) (before after : Option Content) (value : String) : String :=
  if holdsMarkupOnly parent && isBlank value then ""
  else
    let value := if blockEdge before parent then trimStart value else value
    if blockEdge after parent then trimEnd value else value

/-- Trims the texts among siblings, given the one before them: how many changed. -/
def trimSiblings (parent : Content) (before : Option Content) : List NodeId → Edit Nat
  | [] => pure 0
  | id :: ids => do
    let node ← Edit.node id
    let after ← ids.head?.mapM Edit.node
    let changed ←
      if node.isText then setText id (trimmed parent before (after.map (·.toContent)))
      else pure 0
    return changed + (← trimSiblings parent (some node.toContent) ids)

/-- Trims the texts below each listed node. -/
def trimBelow : List NodeId → Edit Nat
  | [] => pure 0
  | id :: ids => do
    let parent ← Edit.node id
    let changed ← trimSiblings parent.toContent none parent.children
    return changed + (← trimBelow ids)

/-- Trims all texts that may change. -/
def trimAll : Edit Nat := do
  trimBelow (← Edit.read Document.freeParents)

/-! ## Blank texts -/

/-- The blank texts that may go. -/
def blankTexts (doc : Document) : Except DocumentError (List NodeId) := do
  (← doc.freeTexts).filterM fun id => return isBlank (← doc.node id).value

/-- Removes blank texts: how many. -/
def removeBlank : Edit Nat := do
  Edit.detach (← Edit.read blankTexts)

end HtmlMinify.Whitespace
