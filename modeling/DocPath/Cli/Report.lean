import DocPath.Failure

/-!
# What the program says about a failure

A failure is shown as a record of what it is about. A failure of a document is shown by itself, any
other with the part of the library that it comes from around it, and a malformed text by its format
alone.
-/

namespace DocPath

/-- A fault of a file, with its number if the system has one for it. -/
def FileFault.report (fault : FileFault) : String :=
  match fault, fault.number? with
  | .other _ text, _ =>
    Text.record "Custom" [("kind", fault.sort), ("error", Text.quoted text)]
  | fault, some n =>
    Text.record "Os"
      [("code", toString n), ("kind", fault.sort), ("message", Text.quoted fault.text)]
  | fault, none =>
    Text.record "Error" [("kind", fault.sort), ("message", Text.quoted fault.text)]

def AccessError.report : AccessError → String
  | .invalidPath path fault => Text.record "InvalidPath"
    [("path", Text.quoted path), ("reason", Text.quoted (fault.message path))]
  | .typeMismatch path expected actual => Text.record "TypeMismatch"
    [("path", Text.quoted path), ("expected", Text.quoted expected.name),
      ("actual", Text.quoted actual.name)]
  | .indexTooLarge path index => Text.record "IndexTooLarge"
    [("path", Text.quoted path), ("index", toString index)]
  | .notResolvable path => Text.record "PathNotResolvable" [("path", Text.quoted path)]
  | .notFound path => Text.record "NotFound" [("path", Text.quoted path)]

def ResourceError.report : ResourceError → String
  | .notAnObject actual => Text.record "NotAnObject" [("actual", Text.quoted actual.name)]
  | .unexpectedKind actual => Text.record "UnexpectedKind"
    [("expected", Text.quoted promiseKind), ("actual", Text.quoted actual)]

def PipelineError.report : PipelineError → String
  | .unreadable path fault =>
    Text.record "Read" [("path", Text.quoted path), ("source", fault.report)]
  | .unwritable path fault =>
    Text.record "Write" [("path", Text.quoted path), ("source", fault.report)]
  | .undecodable path => Text.record "Decode" [("path", Text.quoted path), ("source", "Yaml")]
  | .outsideOutput path => Text.record "InvalidOutputPath" [("path", Text.quoted path)]
  | .noUpdater => "NoStatusUpdater"
  | .rejected target reason => Text.record "UpdateFailed"
    [("target", Text.quoted target), ("reason", Text.quoted reason)]

def Failure.report : Failure → String
  | .io fault => fault.report
  | .json => "Json"
  | .yaml _ => "Yaml"
  | .document error => error.report
  | .resource error => "Resource(" ++ error.report ++ ")"
  | .pipeline error => "Sdk(" ++ error.report ++ ")"

end DocPath
