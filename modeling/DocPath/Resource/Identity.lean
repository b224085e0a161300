import DocPath.Document.Access

/-!
# What identifies an object

An object says its API group and version in one text, `group/version`, or just `version` for the
core group. The text is split at its first slash, so a group never holds one.
-/

namespace DocPath

/-- API group, version and kind of an object; the core group is the empty text. -/
structure GroupVersionKind where
  group : String
  version : String
  kind : String
  deriving DecidableEq, Repr

namespace GroupVersionKind

/-- Splits an API version at its first slash; without one it belongs to the core group. -/
def ofApiVersion (apiVersion kind : String) : GroupVersionKind :=
  let cs := apiVersion.toList
  match cs.dropWhile (· ≠ '/') with
  | [] => ⟨"", apiVersion, kind⟩
  | _ :: version => ⟨String.ofList (cs.takeWhile (· ≠ '/')), String.ofList version, kind⟩

/-- Group and version in one text. -/
def apiVersion (gvk : GroupVersionKind) : String :=
  if gvk.group.isEmpty then gvk.version else gvk.group ++ "/" ++ gvk.version

def text (gvk : GroupVersionKind) : String := gvk.apiVersion ++ ", Kind=" ++ gvk.kind

end GroupVersionKind

/-- What an updater is told about the object to update. The namespace is empty for objects of the
whole cluster, and the plural is that of the kind's endpoint, if known. -/
structure ObjectRef where
  gvk : GroupVersionKind
  name : String
  namespaceName : String
  plural : Option String
  deriving DecidableEq, Repr

def ObjectRef.text (ref : ObjectRef) : String :=
  ref.gvk.text ++ " " ++
    (if ref.namespaceName.isEmpty then ref.name else ref.namespaceName ++ "/" ++ ref.name)

/-- What identifies an object, as its document says it; missing parts are empty. -/
structure Identity where
  gvk : GroupVersionKind
  name : String
  namespaceName : String
  labels : Fields String
  annotations : Fields String
  deriving DecidableEq, Repr

namespace Identity

/-- The node under a chain of keys. -/
def under (keys : List String) (object : Value) : Option Value := object.get? (keys.map Step.key)

/-- The text under a chain of keys; anything else counts as empty. -/
def textUnder (keys : List String) (object : Value) : String :=
  ((under keys object).bind Value.toText?).getD ""

/-- The entries under a chain of keys whose values are texts. -/
def textsUnder (keys : List String) (object : Value) : Fields String :=
  (((under keys object).bind Value.toFields?).getD []).filterMap fun (key, value) =>
    value.toText?.map (key, ·)

/-- The identity in a document. -/
def ofObject (object : Value) : Identity where
  gvk := .ofApiVersion (textUnder ["apiVersion"] object) (textUnder ["kind"] object)
  name := textUnder ["metadata", "name"] object
  namespaceName := textUnder ["metadata", "namespace"] object
  labels := textsUnder ["metadata", "labels"] object
  annotations := textsUnder ["metadata", "annotations"] object

end Identity

end DocPath
