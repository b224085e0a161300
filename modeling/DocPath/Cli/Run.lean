import DocPath.Cli.Command
import DocPath.Cli.Report
import DocPath.Files.Access
import DocPath.Pipeline.Run

/-!
# Running commands

A command reads what it needs, works on the document, and only then writes: one file, or the output.
So a command that fails before its write leaves every file as it was and prints nothing. A value on
the command line is read as YAML after the document, and a path that does not lead anywhere is named
as it was given. What the program logs on its way is left out.
-/

namespace DocPath.Cli

/-- Why a command failed. -/
inductive CommandError where
  | failed (failure : Failure)
  /-- The input cannot be written in place. -/
  | inPlaceInput
  deriving DecidableEq, Repr

def CommandError.report : CommandError → String
  | .failed failure => failure.report
  | .inPlaceInput => Text.quoted "--in-place needs a file, not stdin"

/-- A document as it is printed. -/
def Format.render (v : Value) : Format → String
  | .yaml => v.toYamlText
  | .json => v.toJson.pretty ++ "\n"

/-- A step of a command. -/
abbrev Action (m : Type → Type) (α : Type) := ExceptT CommandError m α

variable {m : Type → Type} [Monad m]

/-- Goes on with a result, unless it is a failure. -/
def orFail {ε α : Type} (wrap : ε → Failure) : Except ε α → Action m α
  | .ok a => pure a
  | .error error => throw (.failed (wrap error))

/-- A step of a pipeline in a command. -/
def inPipeline {α : Type} (step : ExceptT Failure m α) : Action m α :=
  step.adapt CommandError.failed

variable [Terminal m]

/-- Reads a file, or the input, as text. -/
def readText (file : String) : Action m String := do
  let content ← if file = inputName then Except.ok <$> (Terminal.readInput : m ByteArray)
    else (FileAccess.readFile file : m (Except FileFault ByteArray))
  let bytes ← orFail Failure.io content
  match String.fromUTF8? bytes with
  | some text => pure text
  | none => throw (.failed (.io .badText))

/-- Reads a document from a file, or from the input. -/
def readDocument (file : String) : Action m Value := do
  orFail Failure.yaml (Value.ofYamlText (← readText file))

/-- The document that a value on the command line is. -/
def readValue (text : String) : Action m Value := orFail Failure.yaml (Value.ofYamlText text)

/-- Prints a document. -/
def printValue (format : Format) (v : Value) : Action m Unit :=
  (Terminal.print (format.render v) : m Unit)

/-- The value that was found at a path, which has to be there. -/
def found (path : String) (result : Except AccessError (Option Value)) : Action m Value := do
  match ← orFail Failure.document result with
  | some v => pure v
  | none => throw (.failed (.document (.notFound path)))

/-- Prints a document that was changed, or writes it to the file that it came from. -/
def finish (format : Format) (file : String) (inPlace : Bool) (document : Value) :
    Action m Unit := do
  if !inPlace then printValue format document
  else if file = inputName then throw .inPlaceInput
  else
    orFail Failure.io
      (← (FileAccess.writeFile file document.toYamlText.toUTF8 : m (Except FileFault Unit)))

/-- Writes a published object to a file, or prints it. -/
def store (out : Option String) : Updater m := fun target object =>
  match out with
  | none => (Terminal.print object.toYamlText : m Unit)
  | some file => do
    match ← (FileAccess.writeFile file object.toYamlText.toUTF8 : m (Except FileFault Unit)) with
    | .ok () => pure ()
    | .error fault => throw (.pipeline (.rejected target.text fault.message))

/-- Does something with the status of a pipeline. -/
def StatusCommand.run (format : Format) (pipeline : Pipeline) : StatusCommand → Action m Unit
  | .get path => do
    let status ← inPipeline pipeline.readStatus
    match path with
    | none => printValue format status.toValue
    | some path => printValue format (← found path (status.get (.text path)))
  | .set path value => do
    let status ← inPipeline pipeline.readStatus
    let (result, status) := status.set (.text path) (← readValue value)
    orFail Failure.document result
    inPipeline (pipeline.writeStatus status)
  | .remove path => do
    let status ← inPipeline pipeline.readStatus
    let (result, status) := status.remove (.text path)
    let _ ← orFail Failure.document result
    inPipeline (pipeline.writeStatus status)
  | .publish out => do
    let resource ← inPipeline pipeline.readResource
    let status ← inPipeline pipeline.readStatus
    inPipeline (pipeline.publish (some (store out)) resource status)

/-- Does a command. -/
def Command.run (format : Format) : Command → Action m Unit
  | .get path file => do
    let document ← readDocument file
    printValue format (← found path (document.get (.text path)))
  | .set path value file inPlace => do
    let document ← readDocument file
    let (result, document) := document.set (.text path) (← readValue value)
    orFail Failure.document result
    finish format file inPlace document
  | .remove path file inPlace => do
    let document ← readDocument file
    let (result, document) := document.remove (.text path)
    let _ ← orFail Failure.document result
    finish format file inPlace document
  | .merge target source => do
    let target ← readDocument target
    let source ← readDocument source
    printValue format (target.merge source)
  | .status pipeline command => command.run format pipeline

/-- How a run of the program ends. -/
inductive Outcome where
  | done
  | failed (error : CommandError)
  | misused
  deriving DecidableEq, Repr

def Outcome.code : Outcome → UInt32
  | .done => 0
  | .failed _ => 1
  | .misused => 2

/-- What the program says when it is asked for its version. -/
def versionText : String := "kratix 0.2.0\n"

/-- Runs the program. -/
def execute (environment : String → Option String) (arguments : List String) : m Outcome := do
  match Invocation.ofArguments environment arguments with
  | .error .misuse => pure .misused
  | .error .version =>
    Terminal.print versionText
    pure .done
  | .ok invocation => match ← (invocation.command.run invocation.format : Action m Unit).run with
    | .ok () => pure .done
    | .error error => pure (.failed error)

end DocPath.Cli
