import DocPath.Document.Access

/-!
# Scopes: editing a document from an inner node

A scope is a node of a document together with the path it was opened at. Paths given to a scope
start at its node. An edit is one thing done through a scope, and opening a narrower scope is itself
an edit, so a whole session is a list of edits (`Scope.runAll`) and leaves a trace: the reply to
each edit and the node as it was left.
-/

namespace DocPath

/-- A node under edit, and its path from the document it was opened on. -/
structure Scope where
  base : Option Path
  node : Value

/-- One thing done through a scope. -/
inductive Edit where
  | get (address : Address)
  | set (address : Address) (value : Value)
  | remove (address : Address)
  | merge (value : Value)
  | assign (value : Value)
  | scope (address : Address) (edits : List Edit)

/-- What an edit answers. -/
inductive Reply where
  | done
  | found (value : Option Value)
  | failed (error : AccessError)
  | opened (base : Path) (node : Value) (trace : List (Reply × Value))

/-- A node as a scope opens on it: null counts as an empty mapping. -/
def Value.orEmpty : Value → Value
  | .null => .mapping []
  | v => v

/-- The scope of a whole document. -/
def Scope.root (document : Value) : Scope := ⟨none, document⟩

/-- The path of a scope opened inside another one. -/
def Scope.nest (base : Option Path) (p : Path) : Path := match base with
  | some outer => outer.join p
  | none => p

/-- The reply to an edit that answers nothing unless it fails. -/
def Reply.ofUnit : Except AccessError Unit → Reply
  | .ok () => .done
  | .error error => .failed error

/-- The reply to an edit that answers with a value that may not be there. -/
def Reply.ofOption : Except AccessError (Option Value) → Reply
  | .ok value => .found value
  | .error error => .failed error

mutual

/-- Does one edit on a node that lies at `base`. -/
def Edit.run (base : Option Path) : Edit → Value → Reply × Value
  | .get address, node => (.ofOption (node.get address), node)
  | .set address value, node =>
    let (result, node) := node.set address value
    (.ofUnit result, node)
  | .remove address, node =>
    let (result, node) := node.remove address
    (.ofOption result, node)
  | .merge value, node => (.done, node.merge value)
  | .assign value, _ => (.done, value)
  | .scope address edits, node =>
    match address.resolve with
    | .error error => (.failed error, node)
    | .ok p =>
      let inner := Scope.nest base p
      let (result, node) := node.editAt p fun child =>
        let (trace, left) := Edit.runAll (some inner) edits child.orEmpty
        (Reply.opened inner child.orEmpty trace, left)
      match result with
      | .ok reply => (reply, node)
      | .error error => (.failed error, node)

/-- Does edits one after the other, each on what the last one left. -/
def Edit.runAll (base : Option Path) : List Edit → Value → List (Reply × Value) × Value
  | [], node => ([], node)
  | edit :: rest, node =>
    let (reply, node) := Edit.run base edit node
    let (trace, left) := Edit.runAll base rest node
    ((reply, node) :: trace, left)

end

/-- Does edits through a scope. -/
def Scope.runAll (edits : List Edit) (scope : Scope) : List (Reply × Value) × Scope :=
  let (trace, node) := Edit.runAll scope.base edits scope.node
  (trace, { scope with node })

/-- Opens a scope in a document and does edits through it. The answer is the node as it was opened
and the trace. -/
def Value.scopeAt (document : Value) (p : Path) (edits : List Edit) :
    Except AccessError (Value × List (Reply × Value)) × Value :=
  document.editAt p fun child =>
    let (trace, left) := Edit.runAll (some p) edits child.orEmpty
    ((child.orEmpty, trace), left)

end DocPath
