import HtmlMinify.Document.Walk
import HtmlMinify.Json.Value

/-! # The tree of a document as JSON

Keys stand in alphabetical order. Elements and documents show their children, other nodes their
value.
-/

namespace HtmlMinify

/-- An attribute as JSON. -/
def Attribute.toJson (a : Attribute) : Json :=
  .obj [("name", .str a.name), ("value", a.value.elim .null .str)]

/-- A node as JSON, given its children. -/
def Content.toJson (c : Content) (children : List Json) : Json :=
  match c.kind with
  | .element =>
    .obj [("attributes", .arr (c.attributes.toList.map Attribute.toJson)),
      ("children", .arr children), ("tag", .str c.name), ("type", .str c.kind.name)]
  | .document => .obj [("children", .arr children), ("type", .str c.kind.name)]
  | _ => .obj [("type", .str c.kind.name), ("value", .str c.value)]

/-- The trees of a forest as JSON, in order. -/
def Forest.toJson : Forest Content → List Json
  | nil => []
  | node content children siblings => content.toJson children.toJson :: siblings.toJson

namespace Document

/-- The reachable tree as a JSON value; null without a root. -/
def toJson (doc : Document) : Except DocumentError Json := do
  return (← doc.tree).toJson.headD .null

/-- The reachable tree as JSON text. -/
def dump (doc : Document) : Except DocumentError String :=
  doc.toJson.map (·.render)

end Document

end HtmlMinify
