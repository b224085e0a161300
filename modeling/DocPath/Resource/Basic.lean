import DocPath.Document.Scope
import DocPath.Resource.Identity
import DocPath.Resource.Status

/-!
# Resources and promises

A resource is an object document together with its identity, which is read off once, when the
document is wrapped. Of the object only the status can be changed afterwards, and no part of the
identity lies there.
-/

namespace DocPath

/-- Why a document could not be wrapped. -/
inductive ResourceError where
  | notAnObject (actual : Kind)
  | unexpectedKind (actual : String)
  deriving DecidableEq, Repr

/-- The key of the status in an object. -/
def statusKey : String := "status"

/-- The kind of every promise. -/
def promiseKind : String := "Promise"

def ResourceError.message : ResourceError → String
  | .notAnObject actual => s!"resource must be an object, got {actual.name}"
  | .unexpectedKind actual => s!"expected kind {promiseKind}, got '{actual}'"

/-- An object and its identity. -/
structure Resource where
  object : Value
  identity : Identity

namespace Resource

/-- Wraps a document; it has to be a mapping. -/
def ofValue (object : Value) : Except ResourceError Resource :=
  if object.isMapping then .ok ⟨object, .ofObject object⟩ else .error (.notAnObject object.kind)

/-- The value at an address, which has to be there. -/
def get (resource : Resource) (address : Address) : Except AccessError Value := do
  let p ← address.resolve
  match resource.object.getAt p with
  | some v => pure v
  | none => throw (.notFound p.text)

/-- A detached copy of the status; a missing one, or one that is no mapping, counts as empty. -/
def status (resource : Resource) : Status :=
  match resource.object.toFields?.bind (Fields.get? statusKey) with
  | some v => .ofValue v
  | none => .empty

/-- The path of the status, or of a node in it. -/
def statusPath (sub : Option String) : Except AccessError Path :=
  let root := Path.single (.key statusKey)
  match sub with
  | none => .ok root
  | some text => (Path.read text).map root.join

/-- Edits the status, or a node in it, through a scope. The answer is the path of the scope, the
node as it was opened and the trace. -/
def editStatus (resource : Resource) (sub : Option String) (edits : List Edit) :
    Except AccessError (Path × Value × List (Reply × Value)) × Resource :=
  match statusPath sub with
  | .error error => (.error error, resource)
  | .ok p =>
    let (result, object) := resource.object.scopeAt p edits
    (result.map (p, ·), { resource with object })

/-- Puts a status into the object, in place of the one it has. -/
def setStatus (resource : Resource) (status : Status) : Resource :=
  match resource.object with
  | .mapping fields =>
    { resource with object := .mapping (Fields.insert statusKey status.toValue fields) }
  | _ => resource

/-- What an updater is told about the object; an empty plural is unknown. -/
def ref (resource : Resource) (plural : Option String) : ObjectRef where
  gvk := resource.identity.gvk
  name := resource.identity.name
  namespaceName := resource.identity.namespaceName
  plural := plural.filter fun text => !text.isEmpty

end Resource

/-- A resource of the kind of promises. -/
structure Promise where
  resource : Resource

namespace Promise

/-- Checks the kind of a resource. -/
def ofResource (resource : Resource) : Except ResourceError Promise :=
  let kind := resource.identity.gvk.kind
  if kind = promiseKind then .ok ⟨resource⟩ else .error (.unexpectedKind kind)

/-- Wraps a document as a promise. -/
def ofValue (object : Value) : Except ResourceError Promise :=
  (Resource.ofValue object).bind ofResource

def spec (promise : Promise) : Option Value := Identity.under ["spec"] promise.resource.object

/-- The definition of the kind that the promise offers. -/
def api (promise : Promise) : Option Value := Identity.under ["spec", "api"] promise.resource.object

def workflows (promise : Promise) : Option Value :=
  Identity.under ["spec", "workflows"] promise.resource.object

/-- What has to be there before the promise can be kept. -/
def dependencies (promise : Promise) : List Value :=
  ((Identity.under ["spec", "dependencies"] promise.resource.object).bind Value.toItems?).getD []

end Promise

end DocPath
