import DocPath.Document.Access

/-!
# Detached status

A status is a mapping by itself, apart from the object it belongs to. Reads and writes treat it as a
document whose root is that mapping.
-/

namespace DocPath

/-- The status of an object, detached from it. -/
structure Status where
  fields : Fields Value

namespace Status

/-- No fields. -/
def empty : Status := ⟨[]⟩

/-- The status in a value; anything but a mapping counts as empty. -/
def ofValue (v : Value) : Status := ⟨v.toFields?.getD []⟩

def toValue (status : Status) : Value := .mapping status.fields

def isEmpty (status : Status) : Bool := status.fields.isEmpty

/-- Reads by steps; the first one has to be a key. -/
def get? (steps : List Step) (status : Status) : Option Value :=
  match steps with
  | .key name :: rest => (Fields.get? name status.fields).bind (Value.get? rest)
  | _ => none

/-- Does a write on the status as a document. -/
def withRoot {α : Type} (status : Status) (write : Value → α × Value) : α × Status :=
  let (result, root) := write status.toValue
  (result, ofValue root)

/-- Reads at an address. -/
def get (status : Status) (address : Address) : Except AccessError (Option Value) :=
  address.resolve.map fun p => status.get? p.steps

/-- Puts a value at an address. -/
def set (status : Status) (address : Address) (value : Value) : Except AccessError Unit × Status :=
  status.withRoot fun root => root.set address value

/-- Takes away the value at an address. -/
def remove (status : Status) (address : Address) : Except AccessError (Option Value) × Status :=
  status.withRoot fun root => root.remove address

/-- Merges another status into this one; the other one wins. -/
def merge (status incoming : Status) : Status := ⟨Fields.merge status.fields incoming.fields⟩

end Status

end DocPath
