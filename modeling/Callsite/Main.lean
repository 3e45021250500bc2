import Callsite.Cli

/-!
# The program

Reads the files that the arguments name, and prints what the run prints.
-/

def Callsite.Cli.readFile (path : String) : IO (String × Except String String) := do
  try
    pure (path, .ok (← IO.FS.readFile path))
  catch e => pure (path, .error (toString e))

/-- The program: it reads the files that its arguments name. -/
def main (args : List String) : IO UInt32 := do
  let request := Callsite.Cli.request args
  let read ← request.paths.mapM Callsite.Cli.readFile
  let files := fun path => (read.lookup path).getD (.error "not read")
  let outcome := request.answer "callsite" files
  IO.print outcome.out
  IO.eprint outcome.err
  pure outcome.exitCode.toUInt32
