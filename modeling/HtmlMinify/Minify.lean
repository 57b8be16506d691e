import HtmlMinify.Json.Value
import HtmlMinify.Markup.Build
import HtmlMinify.Pass.Apply
import HtmlMinify.Settings.Basic

/-! # Minifying pages

A page is read, the passes run on its document, and the document is written. After each pass the
document is normalized and checked. If anything fails, the page stays as it is. The addresses in a
page are read by `read?`, whatever it makes of them.
-/

namespace HtmlMinify

/-- What can go wrong with a page. -/
inductive MinifyError where
  | document (error : DocumentError)
  | pass (pass : Pass) (error : DocumentError)
deriving Repr, DecidableEq, Inhabited

/-- The wording of an error. -/
def MinifyError.message : MinifyError → String
  | document error => "DOM error: " ++ error.message
  | pass name error => "Pass " ++ name.key ++ " failed: " ++ error.message

/-- A run on a document: a result or an error, and the document as the run leaves it. -/
abbrev Run (α : Type) := ExceptT MinifyError (StateM Document) α

namespace Run

/-- A change of the document as part of a run. -/
def edit {α : Type} (change : Edit α) : Run α := do
  let (result, doc) := change.apply (← get)
  set doc
  match result with
  | .ok a => pure a
  | .error e => throw (.document e)

/-- Checks the document after a pass. -/
def check (pass : Pass) : Run Unit := do
  match (← get).validate with
  | .ok () => pure ()
  | .error e => throw (.pass pass e)

/-- Runs passes in order: how the page is then written. -/
def passes (read? : String → Option Url) (ctx : Context) (options : WriteOptions) :
    List Pass → Run WriteOptions
  | [] => pure options
  | pass :: rest => do
    let _ ← edit (pass.apply read? ctx)
    let _ ← edit Edit.normalize
    check pass
    passes read? ctx (pass.adjust options) rest

/-- Runs the active passes of the settings. -/
def settings (read? : String → Option Url) (s : Settings) : Run WriteOptions :=
  passes read? s.context {} s.active

end Run

namespace Settings

/-- The nesting depth that is allowed. -/
def depthLimit (s : Settings) : Nat :=
  match s.maxDepth with
  | some depth => depth.toNat
  | none => Document.defaultMaxDepth

/-- The page made smaller, or what went wrong. -/
def minify? (s : Settings) (read? : String → Option Url) (page : String) :
    Except MinifyError String :=
  match Document.parse s.depthLimit page with
  | .error e => .error (.document e)
  | .ok doc =>
    match (ExceptT.run (Run.settings read? s)).run doc with
    | (.error e, _) => .error e
    | (.ok options, doc) =>
      match doc.serialize options with
      | .ok output => .ok output
      | .error e => .error (.document e)

end Settings

/-- What minifying a page did; lengths are in bytes. -/
structure Report where
  inputLength : Nat
  outputLength : Nat
  passesRun : List Pass
  passesSkipped : List Pass
  /-- Something went wrong, and the page stayed as it is. -/
  fellBack : Bool
deriving Repr, DecidableEq, Inhabited

namespace Report

/-- Bytes saved; none if the page grew. -/
def saved (r : Report) : Nat :=
  r.inputLength - r.outputLength

/-- A report as JSON. -/
def toJson (r : Report) : Json :=
  let keys (passes : List Pass) : Json := .arr (passes.map fun pass => .str pass.key)
  .obj [("input_len", Json.ofNat r.inputLength), ("output_len", Json.ofNat r.outputLength),
    ("passes_run", keys r.passesRun), ("passes_skipped", keys r.passesSkipped),
    ("fell_back", .bool r.fellBack)]

end Report

namespace Settings

/-- The page made smaller, or the page itself if something went wrong, and what was done. -/
def minifyWithReport (s : Settings) (read? : String → Option Url) (page : String) :
    String × Report :=
  let result := s.minify? read? page
  let output :=
    match result with
    | .ok output => output
    | .error _ => page
  (output,
    { inputLength := page.utf8ByteSize
      outputLength := output.utf8ByteSize
      passesRun := s.active
      passesSkipped := s.skipped
      fellBack := !result.isOk })

/-- The page made smaller, or the page itself if something went wrong. -/
def minify (s : Settings) (read? : String → Option Url) (page : String) : String :=
  (s.minifyWithReport read? page).1

end Settings

end HtmlMinify
