import DocPath.Document.AccessError
import DocPath.Files.Fault
import DocPath.Resource.Basic
import DocPath.Text.Quoted

/-!
# Failures

Everything that an operation of this library can fail with, in one type, with the questions that a
caller asks of a failure. The wording of a syntax error is left open; of a YAML one it is only kept
what was expected in place of a node that does not fit.
-/

namespace DocPath

/-- What a YAML node should have been. -/
inductive Expectation where
  | key
  | value
  deriving DecidableEq, Repr

def Expectation.text : Expectation → String
  | .key => "a scalar mapping key"
  | .value => "a YAML or JSON value"

/-- Why YAML could not be read: the text is malformed, or a node does not fit. -/
inductive YamlFault where
  | malformed
  | unfit (expected : Expectation)
  deriving DecidableEq, Repr

/-- Why a pipeline file could not be used, or a status not published. -/
inductive PipelineError where
  | unreadable (path : String) (fault : FileFault)
  | unwritable (path : String) (fault : FileFault)
  | undecodable (path : String)
  | outsideOutput (path : String)
  | noUpdater
  | rejected (target reason : String)
  deriving DecidableEq, Repr

namespace PipelineError

def message : PipelineError → String
  | .unreadable path _ => s!"failed to read {path}"
  | .unwritable path _ => s!"failed to write {path}"
  | .undecodable path => s!"failed to decode {path}"
  | .outsideOutput path =>
    s!"output path '{path}' must be relative and stay inside the output directory"
  | .noUpdater => "no status updater configured"
  | .rejected target reason => s!"failed to update status of {target}: {reason}"

def isIo : PipelineError → Bool
  | .unreadable _ _ | .unwritable _ _ => true
  | _ => false

/-- Whether a file to read was missing. -/
def isNotFound : PipelineError → Bool
  | .unreadable _ fault => fault.isNotFound
  | _ => false

def isDecode : PipelineError → Bool
  | .undecodable _ => true
  | _ => false

def isPublish : PipelineError → Bool
  | .noUpdater | .rejected _ _ => true
  | _ => false

end PipelineError

/-- A failure of any operation. -/
inductive Failure where
  | io (fault : FileFault)
  | json
  | yaml (fault : YamlFault)
  | document (error : AccessError)
  | resource (error : ResourceError)
  | pipeline (error : PipelineError)
  deriving DecidableEq, Repr

namespace Failure

/-- The part of the library that a failure comes from. -/
def origin : Failure → String
  | .io _ => "io"
  | .json => "json"
  | .yaml _ => "yaml"
  | .document _ => "document"
  | .resource _ => "resource"
  | .pipeline _ => "sdk"

/-- The wording of a failure, except for syntax errors. -/
def message? : Failure → Option String
  | .io fault => some ("I/O error: " ++ fault.message)
  | .json | .yaml _ => none
  | .document error => some error.message
  | .resource error => some error.message
  | .pipeline error => some error.message

def isNotFound : Failure → Bool
  | .io fault => fault.isNotFound
  | .document (.notFound _) => true
  | .pipeline error => error.isNotFound
  | _ => false

def isInvalidPath : Failure → Bool
  | .document (.invalidPath _ _) | .pipeline (.outsideOutput _) => true
  | _ => false

/-- Whether a document had the wrong shape. -/
def isTypeError : Failure → Bool
  | .document (.typeMismatch _ _ _) | .resource _ => true
  | _ => false

def isIoError : Failure → Bool
  | .io _ => true
  | .pipeline error => error.isIo
  | _ => false

/-- Whether a document could not be read from text or written to it. -/
def isSerializationError : Failure → Bool
  | .json | .yaml _ => true
  | .pipeline error => error.isDecode
  | _ => false

end Failure

end DocPath
