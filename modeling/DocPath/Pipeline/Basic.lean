import DocPath.Files.Path
import DocPath.Text.Quoted

/-!
# Pipelines

A pipeline is a run of a workflow in a container. Its files lie in three directories: the object it
was started for in the input directory, what it produces in the output directory, and its status and
the destination selectors in the metadata directory. What the workflow is comes from the
environment.
-/

namespace DocPath

/-- What the environment says about a workflow; what it does not say is empty. -/
structure Workflow where
  /-- Such as `configure` or `delete`. -/
  action : String
  /-- Whether the workflow is one of a resource or of a promise. -/
  kind : String
  promiseName : String
  pipelineName : String
  /-- The plural of the object's kind, as the cluster calls it. -/
  crdPlural : String
  deriving DecidableEq, Repr

namespace Workflow

/-- Nothing known. -/
def empty : Workflow := ⟨"", "", "", "", ""⟩

/-- The workflow in an environment. -/
def ofEnvironment (lookup : String → Option String) : Workflow :=
  let read (name : String) := (lookup name).getD ""
  { action := read "KRATIX_WORKFLOW_ACTION"
    kind := read "KRATIX_WORKFLOW_TYPE"
    promiseName := read "KRATIX_PROMISE_NAME"
    pipelineName := read "KRATIX_PIPELINE_NAME"
    crdPlural := read "KRATIX_CRD_PLURAL" }

end Workflow

/-- Where the files of a pipeline lie, and its workflow. -/
structure Pipeline where
  inputDir : String
  metadataDir : String
  outputDir : String
  /-- The path of the input object from the input directory. -/
  inputObject : String
  workflow : Workflow
  deriving DecidableEq, Repr

namespace Pipeline

/-- Where the files lie in a container, with nothing known of the workflow. -/
def standard : Pipeline where
  inputDir := "/kratix/input"
  metadataDir := "/kratix/metadata"
  outputDir := "/kratix/output"
  inputObject := "object.yaml"
  workflow := .empty

/-- The standard directories, and the workflow in an environment. -/
def ofEnvironment (lookup : String → Option String) : Pipeline :=
  { standard with workflow := .ofEnvironment lookup }

def inputPath (pipeline : Pipeline) : String := FilePath.join pipeline.inputDir pipeline.inputObject

def statusPath (pipeline : Pipeline) : String := FilePath.join pipeline.metadataDir "status.yaml"

def selectorsPath (pipeline : Pipeline) : String :=
  FilePath.join pipeline.metadataDir "destination_selectors.yaml"

/-- Whether a path stays in the directory where it starts: it names something, it does not start at
the root, and it never goes up. -/
def staysInside (path : String) : Bool :=
  let parts := FilePath.components path
  !parts.isEmpty && parts.all Component.isPlain

/-- Everything that is set, for a message. -/
def summary (pipeline : Pipeline) (hasUpdater : Bool) : String :=
  let workflow := pipeline.workflow
  Text.record "Sdk" [
    ("config", Text.record "SdkConfig" [
      ("input_dir", Text.quoted pipeline.inputDir),
      ("metadata_dir", Text.quoted pipeline.metadataDir),
      ("output_dir", Text.quoted pipeline.outputDir),
      ("input_object", Text.quoted pipeline.inputObject),
      ("workflow", Text.record "WorkflowContext" [
        ("action", Text.quoted workflow.action),
        ("workflow_type", Text.quoted workflow.kind),
        ("promise_name", Text.quoted workflow.promiseName),
        ("pipeline_name", Text.quoted workflow.pipelineName),
        ("crd_plural", Text.quoted workflow.crdPlural)])]),
    ("has_status_updater", toString hasUpdater)]

end Pipeline

end DocPath
