import HtmlMinify.Json.Token
import HtmlMinify.Json.Value

/-! # Reading JSON values

Tokens become a value with the unfinished lists and objects around it held in a stack, so nesting
has no limit.
-/

namespace HtmlMinify.Json

/-- A list or an object that is still being read. What is there is held last first. A key without a
value of its own is of no use, so an object with one is ill-formed. -/
inductive Unfinished where
  | arr (items : List Json)
  | obj (fields : List (Option String × Json)) (key : Option String)
deriving Inhabited

/-- An object from its fields, last first. -/
def object (fields : List (Option String × Json)) : Json :=
  match fields.reverse.mapM fun (key, value) => key.map (·, value) with
  | some fields => .obj fields
  | none => .illFormed

mutual

/-- Reads a value, and what follows it, to the end of the text. -/
def value? (outer : List Unfinished) : List Token → Option Json
  | .null :: rest => after? outer .null rest
  | .bool b :: rest => after? outer (.bool b) rest
  | .num text :: rest => after? outer (.num text) rest
  | .str (some s) :: rest => after? outer (.str s) rest
  | .str none :: rest => after? outer .illFormed rest
  | .beginArray :: .endArray :: rest => after? outer (.arr []) rest
  | .beginArray :: rest => value? (.arr [] :: outer) rest
  | .beginObject :: .endObject :: rest => after? outer (.obj []) rest
  | .beginObject :: .str key :: .colon :: rest => value? (.obj [] key :: outer) rest
  | _ => none

/-- Goes on after a value that is complete. -/
def after? (outer : List Unfinished) (value : Json) : List Token → Option Json
  | [] =>
    match outer with
    | [] => some value
    | _ :: _ => none
  | .comma :: .str next :: .colon :: rest =>
    match outer with
    | .obj fields key :: outer => value? (.obj ((key, value) :: fields) next :: outer) rest
    | _ => none
  | .comma :: rest =>
    match outer with
    | .arr items :: outer => value? (.arr (value :: items) :: outer) rest
    | _ => none
  | .endArray :: rest =>
    match outer with
    | .arr items :: outer => after? outer (.arr (value :: items).reverse) rest
    | _ => none
  | .endObject :: rest =>
    match outer with
    | .obj fields key :: outer => after? outer (object ((key, value) :: fields)) rest
    | _ => none
  | _ => none

end

/-- The value that a text writes. -/
def read? (s : String) : Option Json :=
  (tokens? s.toList).bind (value? [])

end HtmlMinify.Json
