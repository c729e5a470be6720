import CodeMarkup.Command.Arguments

/-!
# The program

Reads files, prints what a command gives and exits with its status.
-/

open CodeMarkup

/-- Reads a file. -/
def readPath (path : String) : IO Lookup := do
  try
    return .text (← IO.FS.readFile path)
  catch error =>
    match error with
    | .noFileOrDirectory _ _ _ => return .missing
    | _ => return .unreadable

/-- Runs the arguments of a call. -/
def main (arguments : List String) : IO UInt32 := do
  let outcome ← runArguments readPath arguments
  IO.print outcome.output
  match outcome with
  | .failed failure => IO.eprintln failure.message
  | .misused => IO.eprintln "usage: xapi [OPTIONS] <parse|comments|schema|dedent> <PATH>"
  | .printed _ => pure ()
  return outcome.status.toUInt32
