import AsmLab.CommandLine
/-!
The outer layer of the command line program: it reads the named files, prints the response and writes
the files of the response.
-/
open AsmLab.CommandLine

/-- The contents of a file, or why it cannot be read. -/
def readInput (path : String) : IO (Except String String) := do
  try
    return .ok (← IO.FS.readFile path)
  catch failure =>
    return .error <|
      match failure with
      | .noFileOrDirectory .. => "No such file or directory (os error 2)"
      | .permissionDenied .. => "Permission denied (os error 13)"
      | other => toString other

/-- Reads every named input once. -/
def readInputs (invocation : Invocation) : IO (String → Except String String) := do
  let paths := invocation.config.toList ++ invocation.program.toList
  let contents ← paths.mapM fun path => return (path, ← readInput path)
  return fun path => (contents.lookup path).getD (.error "not read")

def main (arguments : List String) : IO UInt32 := do
  match parseArguments? arguments {} with
  | none =>
    IO.eprintln "usage: asmlab PROGRAM [--config PATH] [--trace] [--dump PATH] | --generate-sample PATH"
    return 2
  | some invocation =>
    let coloured := (← IO.getEnv "NO_COLOR").isNone && (← (← IO.getStdout).isTty)
    let response := respond coloured (← readInputs invocation) invocation
    IO.print response.output
    IO.eprint response.diagnostics
    for (path, contents) in response.files do
      IO.FS.writeFile path contents
    match response.failure with
    | none => return 0
    | some failure =>
      IO.eprintln ("Error: " ++ failure.message)
      return 1
