import HtmlMinify.Json.Read
import HtmlMinify.Settings.Basic

/-! # Settings as JSON

Settings are an object with a field for each pass, or a list of the same values in order. Fields may
be missing, keys that mean nothing are skipped, and no key may come twice, whichever of its two
spellings is used.
-/

namespace HtmlMinify

namespace Setting

/-- A setting as JSON: a flag, or a list of strings. -/
def toJson {takesList : Bool} : Setting takesList → Json
  | flag on => .bool on
  | list names => .arr (names.map .str)

/-- A string. -/
def string? : Json → Option String
  | .str s => some s
  | _ => none

/-- Reads a setting. -/
def ofJson? : (takesList : Bool) → Json → Option (Setting takesList)
  | _, .bool on => some (.flag on)
  | true, .arr items => (items.mapM string?).map .list
  | _, _ => none

end Setting

namespace Settings

/-- What a field of settings is about. -/
inductive Key where
  | pass (pass : Pass)
  | maxDepth
deriving Repr, DecidableEq, Inhabited

/-- All keys in order. -/
def Key.all : List Key :=
  Pass.all.map .pass ++ [.maxDepth]

/-- The key that a name spells. -/
def Key.ofName? (name : String) : Option Key :=
  if name == "max_depth" then some .maxDepth
  else (Pass.all.find? fun pass => pass.key == name || pass.otherKey? == some name).map .pass

/-- Settings as JSON. -/
def toJson (s : Settings) : Json :=
  .obj ((Pass.all.map fun pass => (pass.key, (s.value pass).toJson)) ++
    match s.maxDepth with
    | none => []
    | some depth => [("max_depth", Json.ofNat depth.toNat)])

/-- Settings as text. -/
def render (s : Settings) : String :=
  s.toJson.render

/-- A nesting depth: null, or a whole number of 64 bits that is written with digits only. -/
def depth? : Json → Option (Option UInt64)
  | .null => some none
  | .num text => do
    let n ← Text.digits? 10 text.toList
    if n < UInt64.size then some (some (UInt64.ofNat n)) else none
  | _ => none

/-- Takes over the value of one field. -/
def readField? (s : Settings) (key : Key) (value : Json) : Option Settings :=
  match key with
  | .pass pass => (Setting.ofJson? pass.takesList value).map (s.put pass)
  | .maxDepth => (depth? value).map fun maxDepth => { s with maxDepth }

/-- Takes over named fields, none of them twice. -/
def readFields? (seen : List Key) (s : Settings) : List (String × Json) → Option Settings
  | [] => some s
  | (name, value) :: rest =>
    match Key.ofName? name with
    | none => readFields? seen s rest
    | some key =>
      if seen.contains key then none
      else
        match s.readField? key value with
        | some s => readFields? (key :: seen) s rest
        | none => none

/-- Takes over values in the order of the keys; there may be fewer values than keys. -/
def readItems? (s : Settings) : List Key → List Json → Option Settings
  | _, [] => some s
  | [], _ :: _ => none
  | key :: keys, value :: values =>
    match s.readField? key value with
    | some s => readItems? s keys values
    | none => none

/-- Reads settings from JSON. -/
def ofJson? : Json → Option Settings
  | .obj fields => readFields? [] off fields
  | .arr items => readItems? off Key.all items
  | _ => none

/-- Reads settings from text. -/
def parse? (text : String) : Option Settings :=
  (Json.read? text).bind ofJson?

end Settings

end HtmlMinify
