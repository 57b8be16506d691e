import HtmlMinify.Command

/-! # The program `htmlmin` -/

namespace HtmlMinify.Command

/-- Nothing if an action fails. -/
def orNone {α : Type} (action : IO α) : IO (Option α) := do
  try
    return some (← action)
  catch _ => return none

/-- The real files and the real standard input. -/
def realFiles : FileSystem IO where
  contentOf path := orNone (IO.FS.readBinFile path)
  input := orNone do (← IO.getStdin).readBinToEnd
  save path text := do return (← orNone (IO.FS.writeFile path text)).isSome

end HtmlMinify.Command

/-- Runs the command on the real files. -/
def main (arguments : List String) : IO UInt32 := do
  let outcome ← HtmlMinify.Command.run HtmlMinify.Command.realFiles arguments
  (← IO.getStdout).putStr outcome.output
  match outcome.report with
  | some report => IO.eprintln report.toJson.render
  | none => pure ()
  return UInt32.ofNat outcome.status
