import DocPath.Failure
import DocPath.Files.Access
import DocPath.Pipeline.Basic
import DocPath.Pipeline.Selector
import DocPath.Yaml.Writer

/-!
# What a pipeline does

A pipeline reads its input object, its status and its destination selectors, writes output files, a
status and selectors, and publishes its status. An empty status file is an empty status, and an
empty file of selectors has none. A write makes the directories that are missing. Output stays in
the output directory: a path that could lead out of it is refused before anything is touched.

Publishing merges a status over the one in the object and hands the object, with the merged status
in it, to an updater. The object that was passed in stays as it is.
-/

namespace DocPath

/-- Stores the status of an object outside the pipeline; the status is in the object. -/
abbrev Updater (m : Type → Type) := ObjectRef → Value → ExceptT Failure m Unit

namespace Pipeline

variable {m : Type → Type} [Monad m]

/-- Publishes a status on top of the one that the resource has. -/
def publish (pipeline : Pipeline) (updater : Option (Updater m)) (resource : Resource)
    (incoming : Status) : ExceptT Failure m Unit :=
  match updater with
  | none => throw (.pipeline .noUpdater)
  | some update =>
    let merged := resource.setStatus (resource.status.merge incoming)
    update (resource.ref (some pipeline.workflow.crdPlural)) merged.object

variable [FileAccess m]

/-- Reads a file and decodes it. -/
def readDecoded {α : Type} (path : String) (decode : ByteArray → Except YamlFault α) :
    ExceptT Failure m α := do
  match ← (FileAccess.readFile path : m (Except FileFault ByteArray)) with
  | .error fault => throw (.pipeline (.unreadable path fault))
  | .ok bytes => match decode bytes with
    | .error _ => throw (.pipeline (.undecodable path))
    | .ok a => pure a

/-- Reads the input object. -/
def readResource (pipeline : Pipeline) : ExceptT Failure m Resource := do
  let object ← readDecoded pipeline.inputPath Value.ofYamlBytes
  ((Resource.ofValue object).mapError Failure.resource : Except Failure Resource)

/-- Reads the input object, which has to be a promise. -/
def readPromise (pipeline : Pipeline) : ExceptT Failure m Promise := do
  let object ← readDecoded pipeline.inputPath Value.ofYamlBytes
  ((Promise.ofValue object).mapError Failure.resource : Except Failure Promise)

/-- Reads the status. -/
def readStatus (pipeline : Pipeline) : ExceptT Failure m Status :=
  Status.ofValue <$> readDecoded pipeline.statusPath Value.ofYamlBytes

/-- Reads the destination selectors. -/
def readSelectors (pipeline : Pipeline) : ExceptT Failure m (List Selector) := do
  let selectors : Option (List Selector) ← readDecoded pipeline.selectorsPath fun bytes =>
    (Yaml.Document.ofBytes bytes).bind Yaml.Document.decode
  pure (selectors.getD [])

/-- Writes a file, after the directories that it lies in. -/
def writeFile (path : String) (content : ByteArray) : ExceptT Failure m Unit := do
  let made ← match FilePath.parent? path with
    | some directory => (FileAccess.makeDirectories directory : m (Except FileFault Unit))
    | none => pure (.ok ())
  let written ← match made with
    | .ok () => (FileAccess.writeFile path content : m (Except FileFault Unit))
    | .error fault => pure (.error fault)
  match written with
  | .ok () => pure ()
  | .error fault => throw (.pipeline (.unwritable path fault))

/-- Writes a file in the output directory. -/
def writeOutput (pipeline : Pipeline) (path : String) (content : ByteArray) :
    ExceptT Failure m Unit :=
  if staysInside path then writeFile (FilePath.join pipeline.outputDir path) content
  else throw (.pipeline (.outsideOutput path))

/-- Writes the status, in place of the one before. -/
def writeStatus (pipeline : Pipeline) (status : Status) : ExceptT Failure m Unit :=
  writeFile pipeline.statusPath status.toValue.toYamlText.toUTF8

/-- Writes the destination selectors, in place of those before. -/
def writeSelectors (pipeline : Pipeline) (selectors : List Selector) : ExceptT Failure m Unit :=
  writeFile pipeline.selectorsPath
    (Value.sequence (selectors.map Selector.toValue)).toYamlText.toUTF8

end Pipeline

end DocPath
