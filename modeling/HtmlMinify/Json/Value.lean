import HtmlMinify.Json.Quoted

/-! # JSON values

JSON values and their text: one item a line, two blanks of indent a level, empty lists and objects
on one line.
-/

namespace HtmlMinify

/-- A JSON value; numbers are as written, and the fields of an object in the order written.
`illFormed` is what a string reads as that escapes half a character, and an object with such a key;
it is never written. -/
inductive Json where
  | null
  | bool (value : Bool)
  | num (text : String)
  | str (value : String)
  | arr (items : List Json)
  | obj (fields : List (String × Json))
  | illFormed
deriving Repr, Inhabited

namespace Json

/-- A whole number. -/
def ofNat (n : Nat) : Json :=
  num (toString n)

/-- A new line, indented by a number of levels. -/
def newLine (level : Nat) : String :=
  String.ofList ('\n' :: List.replicate (2 * level) ' ')

mutual

/-- The text of a value that stands at an indent level. -/
def pretty (level : Nat) : Json → String
  | null | illFormed => "null"
  | bool true => "true"
  | bool false => "false"
  | num text => text
  | str value => quote value
  | arr [] => "[]"
  | arr (item :: items) =>
    "[" ++ newLine (level + 1) ++ item.pretty (level + 1) ++ prettyItems (level + 1) items ++
      newLine level ++ "]"
  | obj [] => "\x7b\x7d"
  | obj (field :: fields) =>
    "\x7b" ++ newLine (level + 1) ++ prettyField (level + 1) field ++
      prettyFields (level + 1) fields ++ newLine level ++ "\x7d"

/-- The items after the first, each after a comma. -/
def prettyItems (level : Nat) : List Json → String
  | [] => ""
  | item :: items => "," ++ newLine level ++ item.pretty level ++ prettyItems level items

/-- A key and its value. -/
def prettyField (level : Nat) : String × Json → String
  | (key, value) => quote key ++ ": " ++ value.pretty level

/-- The fields after the first, each after a comma. -/
def prettyFields (level : Nat) : List (String × Json) → String
  | [] => ""
  | field :: fields =>
    "," ++ newLine level ++ prettyField level field ++ prettyFields level fields

end

/-- The text of a value. -/
def render (value : Json) : String :=
  value.pretty 0

end Json

end HtmlMinify
