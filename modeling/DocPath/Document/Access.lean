import DocPath.Document.AccessError
import DocPath.Document.Merge

/-!
# Reading and writing by path

A walk takes one step after the other and stops at the first node where it cannot go on; how many
steps it got through, and what stood in the way, make a `Halt`.

* Reading (`get?`) and updating in place (`update?`) never create anything.
* Writing (`zoom`) creates what is missing. A key step turns whatever is not a mapping into one. An
  index step turns only null into a sequence, and fills a short one up with nulls. What a walk
  created before it halted stays.
* Removing (`detach`) creates nothing. A final step that is not there is no failure, any other is.
-/

namespace DocPath

/-- What a walk met that it could not pass. -/
inductive Obstacle where
  | wrongKind (needed : Container) (found : Kind)
  | tooLarge (index : UInt64)
  | missing
  deriving DecidableEq, Repr

/-- Where a walk stopped: after `depth` steps. -/
structure Halt where
  depth : Nat
  obstacle : Obstacle
  deriving DecidableEq, Repr

namespace Halt

/-- A halt right here. -/
def here (obstacle : Obstacle) : Halt := ⟨0, obstacle⟩

/-- The same halt seen from one step higher. -/
def deeper (halt : Halt) : Halt := { halt with depth := halt.depth + 1 }

/-- The error of a halt on a path: it names the node where the walk stopped, or, when a node was
missing, that one. -/
def error (p : Path) (halt : Halt) : AccessError :=
  match halt.obstacle with
  | .wrongKind needed found => .typeMismatch (p.location halt.depth) needed found
  | .tooLarge index => .indexTooLarge (p.location halt.depth) index
  | .missing => .notResolvable (p.textUpTo (halt.depth + 1))

end Halt

/-- Sequences are not filled up to positions from here on. -/
def positionLimit : Nat := Nat.pow 2 58

namespace Value

/-- The node one step down. -/
def child? : Step → Value → Option Value
  | .key name, .mapping fields => Fields.get? name fields
  | .index position, .sequence items => items[position.toNat]?
  | _, _ => none

/-- Puts a node one step down, in place of the one that is there; under a key none need be. -/
def setChild (child : Value) : Step → Value → Value
  | .key name, .mapping fields => .mapping (Fields.insert name child fields)
  | .index position, .sequence items => .sequence (items.set position.toNat child)
  | _, v => v

/-- Takes away the node one step down; the items after it move up. -/
def dropChild : Step → Value → Value
  | .key name, .mapping fields => .mapping (Fields.erase name fields)
  | .index position, .sequence items => .sequence (items.eraseIdx position.toNat)
  | _, v => v

/-- Whether a node is the container that a step needs. -/
def admits : Step → Value → Bool
  | .key _, v => v.isMapping
  | .index _, v => v.isSequence

/-- The node that steps lead to; none of them lead to the node itself. -/
def get? : List Step → Value → Option Value
  | [], v => some v
  | step :: rest, v => match child? step v with
    | some child => get? rest child
    | none => none

/-- Edits the node that steps lead to, if they lead to one. -/
def update? {α : Type} (edit : Value → α × Value) : List Step → Value → Option (α × Value)
  | [], v => some (edit v)
  | step :: rest, v => match child? step v with
    | some child => (update? edit rest child).map fun result =>
      (result.1, setChild result.2 step v)
    | none => none

/-- The entries to go on with before a key step. -/
def openFields : Value → Fields Value
  | .mapping fields => fields
  | _ => []

/-- The items to go on with before an index step; none when the node is in the way. -/
def openItems? : Value → Option (List Value)
  | .sequence items => some items
  | .null => some []
  | _ => none

/-- Items filled up with nulls so that there is one at a position. -/
def padTo (position : Nat) (items : List Value) : List Value :=
  items ++ List.replicate (position + 1 - items.length) .null

/-- Makes a node ready for a step. The answer is what is in the way, if anything is, and the node as
it is left. -/
def prepare : Step → Value → Option Obstacle × Value
  | .key _, v => (none, .mapping (openFields v))
  | .index position, v => match openItems? v with
    | none => (some (.wrongKind .array v.kind), v)
    | some items =>
      let i := position.toNat
      if items.length ≤ i ∧ positionLimit ≤ i then (some (.tooLarge position), .sequence items)
      else (none, .sequence (padTo i items))

/-- The node one step down, null where there is none. -/
def slot (step : Step) (v : Value) : Value := (child? step v).getD .null

/-- Edits the node that steps lead to, creating what is missing on the way; the document is kept
also when the walk halts. -/
def zoom {α : Type} (edit : Value → α × Value) : List Step → Value → Except Halt α × Value
  | [], v => let (result, v) := edit v; (.ok result, v)
  | step :: rest, v => match prepare step v with
    | (some obstacle, v) => (.error (.here obstacle), v)
    | (none, v) =>
      let (result, child) := zoom edit rest (slot step v)
      (result.mapError Halt.deeper, setChild child step v)

/-- What stands in the way of a step that leads nowhere: nothing is there, or the wrong thing. -/
def obstacle (step : Step) (v : Value) : Obstacle :=
  if v.isNull || admits step v then .missing else .wrongKind step.needs v.kind

/-- Takes away the node that steps lead to. The answer is that node and what is left, or nothing
when the final step leads nowhere. -/
def detach : List Step → Value → Except Halt (Option (Value × Value))
  | [], _ => .ok none
  | step :: rest, v => match child? step v, rest with
    | some child, [] => .ok (some (child, dropChild step v))
    | some child, _ :: _ => match detach rest child with
      | .ok found => .ok (found.map fun result => (result.1, setChild result.2 step v))
      | .error halt => .error halt.deeper
    | none, [] => match obstacle step v with
      | .missing => .ok none
      | other => .error (.here other)
    | none, _ :: _ => .error (.here (obstacle step v))

/-- The node at a path. -/
def getAt (v : Value) (p : Path) : Option Value := get? p.steps v

/-- Edits the node at a path, if there is one. -/
def updateAt {α : Type} (v : Value) (p : Path) (edit : Value → α × Value) : Option (α × Value) :=
  update? edit p.steps v

/-- Edits the node at a path, creating it as needed; a node that was not there is null. -/
def editAt {α : Type} (v : Value) (p : Path) (edit : Value → α × Value) :
    Except AccessError α × Value :=
  let (result, v) := zoom edit p.steps v
  (result.mapError (Halt.error p), v)

/-- The node at a path, created as needed. -/
def entryAt (v : Value) (p : Path) : Except AccessError Value × Value :=
  editAt v p fun node => (node, node)

/-- Puts a value at a path. -/
def setAt (v : Value) (p : Path) (value : Value) : Except AccessError Unit × Value :=
  editAt v p fun _ => ((), value)

/-- Takes away the value at a path; the answer is that value, if there was one. -/
def removeAt (v : Value) (p : Path) : Except AccessError (Option Value) × Value :=
  match detach p.steps v with
  | .ok (some (removed, rest)) => (.ok (some removed), rest)
  | .ok none => (.ok none, v)
  | .error halt => (.error (halt.error p), v)

/-- Reads at an address; only a malformed path is an error. -/
def get (v : Value) (address : Address) : Except AccessError (Option Value) :=
  address.resolve.map (getAt v)

/-- Puts a value at an address; a malformed path leaves the document alone. -/
def set (v : Value) (address : Address) (value : Value) : Except AccessError Unit × Value :=
  match address.resolve with
  | .ok p => setAt v p value
  | .error error => (.error error, v)

/-- Takes away the value at an address; a malformed path leaves the document alone. -/
def remove (v : Value) (address : Address) : Except AccessError (Option Value) × Value :=
  match address.resolve with
  | .ok p => removeAt v p
  | .error error => (.error error, v)

end Value

end DocPath
