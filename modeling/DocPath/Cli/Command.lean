import DocPath.Cli.Arguments
import DocPath.Pipeline.Basic

/-!
# Commands

What the program can be asked to do, and how a list of arguments asks for it. The output format can
be given at every level of a command, and the innermost level counts. The directories of a pipeline
come from the arguments, else from the environment, else they are the standard ones.
-/

namespace DocPath.Cli

/-- How documents are printed. -/
inductive Format where
  | yaml
  | json
  deriving DecidableEq, Repr

/-- What can be done with the status of a pipeline. -/
inductive StatusCommand where
  | get (path : Option String)
  | set (path value : String)
  | remove (path : String)
  /-- Publishes the status, into a file or else to the output. -/
  | publish (out : Option String)
  deriving DecidableEq, Repr

/-- What can be done. A file that is a single dash is the input. -/
inductive Command where
  | get (path file : String)
  | set (path value file : String) (inPlace : Bool)
  | remove (path file : String) (inPlace : Bool)
  | merge (target source : String)
  | status (pipeline : Pipeline) (command : StatusCommand)
  deriving DecidableEq, Repr

/-- A command and how its result is printed. -/
structure Invocation where
  format : Format
  command : Command
  deriving DecidableEq, Repr

/-- The file name that means the input. -/
def inputName : String := "-"

def outputSwitch : Switch := ⟨"output", some 'o', .oneOf ["yaml", "json"]⟩

def fileSwitch : Switch := ⟨"file", some 'f', .path⟩

def inPlaceSwitch : Switch := ⟨"in-place", some 'i', .nothing⟩

def objectOutSwitch : Switch := ⟨"object-out", none, .path⟩

/-- Options before the name of a command. -/
def outerSwitches : List Switch := [outputSwitch, ⟨"version", some 'V', .version⟩]

/-- Options between `status` and what is done with it. -/
def statusSwitches : List Switch := [outputSwitch, ⟨"input-dir", none, .path⟩,
  ⟨"metadata-dir", none, .path⟩, ⟨"output-dir", none, .path⟩, ⟨"input-object", none, .text⟩]

/-- The value of an option that was given. -/
def Reading.value? (reading : Reading) (switch : Switch) : Option String :=
  reading.given.lookup switch.name

def Reading.has (reading : Reading) (switch : Switch) : Bool := (reading.value? switch).isSome

/-- The file that a command reads. -/
def Reading.file (reading : Reading) : String := (reading.value? fileSwitch).getD inputName

/-- The format that the levels of a command ask for, the innermost level first. -/
def formatOf (levels : List Reading) : Format :=
  match levels.findSome? fun level => level.value? outputSwitch with
  | some "json" => .json
  | _ => .yaml

/-- A directory of a pipeline; in the environment it may not be empty. -/
def directoryOf (environment : String → Option String) (reading : Reading)
    (name variableName standard : String) : Except Stop String :=
  match reading.given.lookup name, environment variableName with
  | some value, _ => .ok value
  | none, some value => if value.isEmpty then .error .misuse else .ok value
  | none, none => .ok standard

/-- The pipeline that the options of `status` describe. -/
def pipelineOf (environment : String → Option String) (reading : Reading) :
    Except Stop Pipeline := do
  let standard := Pipeline.standard
  let directory := directoryOf environment reading
  let inputDir ← directory "input-dir" "KRATIX_INPUT_DIR" standard.inputDir
  let metadataDir ← directory "metadata-dir" "KRATIX_METADATA_DIR" standard.metadataDir
  let outputDir ← directory "output-dir" "KRATIX_OUTPUT_DIR" standard.outputDir
  let inputObject := (reading.given.lookup "input-object").getD standard.inputObject
  pure ⟨inputDir, metadataDir, outputDir, inputObject, .ofEnvironment environment⟩

/-- The variables of the environment that matter. -/
def variableNames : List String := ["KRATIX_INPUT_DIR", "KRATIX_METADATA_DIR", "KRATIX_OUTPUT_DIR",
  "KRATIX_WORKFLOW_ACTION", "KRATIX_WORKFLOW_TYPE", "KRATIX_PROMISE_NAME", "KRATIX_PIPELINE_NAME",
  "KRATIX_CRD_PLURAL"]

/-- Reads what is to be done with a status. -/
def readStatusCommand (name : String) (arguments : List String) :
    Except Stop (Reading × StatusCommand) := do
  match name with
  | "get" =>
    let reading ← read [outputSwitch] false arguments
    match reading.words with
    | [] => pure (reading, .get none)
    | [path] => pure (reading, .get (some path))
    | _ => throw .misuse
  | "set" =>
    let reading ← read [outputSwitch] false arguments
    match reading.words with
    | [path, value] => pure (reading, .set path value)
    | _ => throw .misuse
  | "remove" =>
    let reading ← read [outputSwitch] false arguments
    match reading.words with
    | [path] => pure (reading, .remove path)
    | _ => throw .misuse
  | "publish" =>
    let reading ← read [outputSwitch, objectOutSwitch] false arguments
    match reading.words with
    | [] => pure (reading, .publish (reading.value? objectOutSwitch))
    | _ => throw .misuse
  | _ => throw .misuse

/-- Reads a command. The answer has the levels of its arguments, the innermost first. -/
def readCommand (environment : String → Option String) (name : String) (arguments : List String) :
    Except Stop (List Reading × Command) := do
  match name with
  | "get" =>
    let reading ← read [outputSwitch, fileSwitch] false arguments
    match reading.words with
    | [path] => pure ([reading], .get path reading.file)
    | _ => throw .misuse
  | "set" =>
    let reading ← read [outputSwitch, fileSwitch, inPlaceSwitch] false arguments
    match reading.words with
    | [path, value] =>
      pure ([reading], .set path value reading.file (reading.has inPlaceSwitch))
    | _ => throw .misuse
  | "remove" =>
    let reading ← read [outputSwitch, fileSwitch, inPlaceSwitch] false arguments
    match reading.words with
    | [path] => pure ([reading], .remove path reading.file (reading.has inPlaceSwitch))
    | _ => throw .misuse
  | "merge" =>
    let reading ← read [outputSwitch] false arguments
    match reading.words with
    | [target, source] =>
      if target.isEmpty || source.isEmpty then throw .misuse
      else pure ([reading], .merge target source)
    | _ => throw .misuse
  | "status" =>
    let reading ← read statusSwitches true arguments
    match reading.words with
    | [inner] =>
      let (innermost, command) ← readStatusCommand inner reading.rest
      let pipeline ← pipelineOf environment reading
      pure ([innermost, reading], .status pipeline command)
    | _ => throw .misuse
  | _ => throw .misuse

/-- Reads the arguments of the program. Asking for help, by `--help`, `-h` or `help`, is read as
misuse, since there are no texts here to answer with. -/
def Invocation.ofArguments (environment : String → Option String) (arguments : List String) :
    Except Stop Invocation := do
  let outer ← read outerSwitches true arguments
  match outer.words with
  | [name] =>
    let (levels, command) ← readCommand environment name outer.rest
    pure ⟨formatOf (levels ++ [outer]), command⟩
  | _ => throw .misuse

end DocPath.Cli
