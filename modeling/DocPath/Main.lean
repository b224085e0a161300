import DocPath.Cli.Run

/-!
# The program

The commands on the files, the input and the output of the machine.
-/

namespace DocPath

/-- The fault that the system reports. -/
def FileFault.ofSystem (error : IO.Error) : FileFault :=
  match error with
  | .noFileOrDirectory _ _ _ => .notFound
  | .alreadyExists _ n _ | .inappropriateType _ n _ | .invalidArgument _ n _ =>
    (FileFault.ofNumber? n.toNat).getD (.other false (toString error))
  | _ => .other false (toString error)

/-- The outcome of an operation of the system on files. -/
def onSystem {α : Type} (operation : IO α) : IO (Except FileFault α) := do
  match ← operation.toBaseIO with
  | .ok a => pure (.ok a)
  | .error error => pure (.error (FileFault.ofSystem error))

instance : Terminal IO where
  readFile path := onSystem (IO.FS.readBinFile path)
  writeFile path content := onSystem (IO.FS.writeBinFile path content)
  makeDirectories path :=
    if path.isEmpty then pure (.ok ()) else onSystem (IO.FS.createDirAll path)
  readInput := do (← IO.getStdin).readBinToEnd
  print text := do
    let output ← IO.getStdout
    output.putStr text
    output.flush

end DocPath

open DocPath in
/-- Runs a command and tells how it went. -/
def main (arguments : List String) : IO UInt32 := do
  let environment ← Cli.variableNames.filterMapM fun name => do
    pure ((← IO.getEnv name).map (name, ·))
  let outcome ← Cli.execute (fun name => environment.lookup name) arguments
  match outcome with
  | .done => pure ()
  | .failed error => IO.eprintln ("Error: " ++ error.report)
  | .misused => IO.eprintln "error: the arguments do not make a command"
  pure outcome.code
