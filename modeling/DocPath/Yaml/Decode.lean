import DocPath.Document.Value
import DocPath.Failure
import DocPath.Number.Shortest
import DocPath.Yaml.Node
import DocPath.Yaml.Resolve

/-!
# From YAML nodes to values

Scalars mean what they say, unless a tag of the standard set says what they are. A local tag, one
that begins with a sign, is dropped from a value and refused on a key. Keys are scalars and become
text. Collections may be nested `nestingLimit` deep, and the number of aliases that are followed is
bounded by the size of the document, which ends every expansion.

The walk takes the nodes in the order of the text and stops at the first that does not fit, also
when the text is malformed further on.
-/

namespace DocPath.Yaml

/-- Collections nested deeper are refused. -/
def nestingLimit : Nat := 128

/-- How many aliases are followed for each unit of a document's size. -/
def aliasFactor : Nat := 100

/-- A walk over nodes, with the number of aliases it may still follow. -/
abbrev Walk := StateT Nat (Except YamlFault)

/-- The nodes that aliases mean, by number; of two with one number the later counts. -/
abbrev Anchors := List (Nat × Node)

/-- Follows an alias. -/
def Node.resolve (anchors : Anchors) : Node → Walk Node
  | .alias number => do
    let left ← get
    if left = 0 then throw .malformed
    else
      set (left - 1)
      pure ((anchors.lookup number).getD .broken)
  | node => pure node

/-- What a scalar means by its tag. One that begins with a sign leaves the scalar what it is by
itself, and any other that is not in the standard set makes it text. -/
def meaning (tag : Option Tag) (plain : Bool) (text : String) : Except YamlFault Meaning :=
  let asWritten := if plain then Meaning.ofPlain text else .text
  match tag with
  | none => .ok asWritten
  | some tag =>
    if tag = .text "tag:yaml.org,2002:bool" then
      match Meaning.bool? text with
      | some b => .ok (.bool b)
      | none => .error .malformed
    else if tag = .text "tag:yaml.org,2002:int" then
      match Meaning.integer? text with
      | some m => .ok m
      | none => .error .malformed
    else if tag = .text "tag:yaml.org,2002:float" then
      match Meaning.float? text with
      | some x => .ok (.float x)
      | none => .error .malformed
    else if tag = .text "tag:yaml.org,2002:null" then
      if Meaning.isNull text then .ok .null else .error .malformed
    else .ok (if tag.isSigned then asWritten else .text)

namespace Meaning

/-- The value of a scalar. -/
def toValue (text : String) : Meaning → Except YamlFault Value
  | .null => .ok .null
  | .bool b => .ok (.bool b)
  | .integer n => .ok (if 0 < n then .ofUInt64 (UInt64.ofNat n.toNat) else .int (Int64.ofInt n))
  | .wide => .error (.unfit .value)
  | .float x => .ok (.float x)
  | .text => .ok (.text text)

/-- The key that a scalar is. -/
def toKey (text : String) : Meaning → Except YamlFault String
  | .null => .ok "null"
  | .bool b => .ok (toString b)
  | .integer n => .ok (toString n)
  | .wide => .error (.unfit .key)
  | .float x => .ok (NumberStyle.plain.format x)
  | .text => .ok text

end Meaning

namespace Node

/-- The value of a scalar. -/
def scalarValue (properties : Properties) (plain : Bool) (text : String) :
    Except YamlFault Value := do
  let m ← meaning properties.tag plain text
  m.toValue text

/-- The key that a node is; `depth` says how many collections may be nested from here. -/
def toKey (anchors : Anchors) (depth : Nat) (node : Node) : Walk String := do
  let node ← node.resolve anchors
  if node.hasLocalTag then throw (.unfit .key)
  else match node with
    | .scalar properties plain text => do
      let m ← meaning properties.tag plain text
      m.toKey text
    | .sequence _ _ | .mapping _ _ => throw (if depth = 0 then .malformed else .unfit .key)
    | .alias _ | .broken => throw .malformed

/-- The value of a node, with `depth` collections nested at most. -/
def toValue (anchors : Anchors) : (depth : Nat) → Node → Walk Value
  | 0, node => do
    match ← node.resolve anchors with
    | .scalar properties plain text => scalarValue properties plain text
    | _ => throw .malformed
  | depth + 1, node => do
    match ← node.resolve anchors with
    | .scalar properties plain text => scalarValue properties plain text
    | .sequence _ items => do
      let values ← items.mapM (toValue anchors depth)
      pure (.sequence values)
    | .mapping _ entries => do
      let pairs ← entries.mapM fun (key, node) => do
        let name ← toKey anchors depth key
        let value ← toValue anchors depth node
        pure (name, value)
      pure (.mapping (Fields.ofList pairs))
    | .alias _ | .broken => throw .malformed

/-- The key that a scalar is. -/
def scalarKey (properties : Properties) (plain : Bool) (text : String) :
    Except YamlFault String := do
  if properties.tag.any Tag.isLocal then throw (.unfit .key)
  else
    let m ← meaning properties.tag plain text
    m.toKey text

theorem toKey_of_scalar (anchors : Anchors) (depth : Nat) (properties : Properties) (plain : Bool)
    (text : String) : toKey anchors depth (.scalar properties plain text) =
      liftM (scalarKey properties plain text) := by
  have hkey : toKey anchors depth (.scalar properties plain text) =
    (if properties.tag.any Tag.isLocal then throw (.unfit .key)
      else (do
        let m ← liftM (meaning properties.tag plain text)
        liftM (m.toKey text)) : Walk String) := rfl
  rw [hkey, scalarKey]
  split
  · rfl
  · cases meaning properties.tag plain text <;> rfl

/-- The key and the value of an entry, with `depth` collections nested in the value at most. -/
def toEntry (anchors : Anchors) (depth : Nat) (entry : Node × Node) : Walk (String × Value) := do
  let name ← toKey anchors depth entry.1
  let value ← toValue anchors depth entry.2
  pure (name, value)

theorem toValue_of_scalar (anchors : Anchors) (depth : Nat) (properties : Properties)
    (plain : Bool) (text : String) : toValue anchors depth (.scalar properties plain text) =
      liftM (scalarValue properties plain text) := by
  cases depth <;> rfl

theorem toValue_of_sequence (anchors : Anchors) (depth : Nat) (properties : Properties)
    (items : List Node) : toValue anchors (depth + 1) (.sequence properties items) = (do
      let values ← items.mapM (toValue anchors depth)
      pure (.sequence values)) := rfl

theorem toValue_of_mapping (anchors : Anchors) (depth : Nat) (properties : Properties)
    (entries : List (Node × Node)) : toValue anchors (depth + 1) (.mapping properties entries) = (do
      let pairs ← entries.mapM (toEntry anchors depth)
      pure (.mapping (Fields.ofList pairs))) := rfl

end Node

namespace Document

/-- What the aliases of a document mean. -/
def anchors (document : Document) : Anchors :=
  (document.root.map Node.anchored).getD [] |>.reverse

/-- How many aliases may be followed in a document. -/
def aliasLimit (document : Document) : Nat :=
  ((document.root.map Node.size).getD 1) * aliasFactor

/-- The outcome of a walk over a document, unless the text is malformed further on. -/
def finish {α : Type} (document : Document) (walk : Walk α) : Except YamlFault α :=
  match walk.run document.aliasLimit with
  | .error fault => .error fault
  | .ok (a, _) => if document.sound then .ok a else .error .malformed

/-- The document in bytes, which have to be UTF-8. -/
def ofBytes (bytes : ByteArray) : Except YamlFault Document :=
  match String.fromUTF8? bytes with
  | some input => .ok (parse input.toList)
  | none => .error .malformed

/-- The value of a document; a text without any document is null. -/
def toValue (document : Document) : Except YamlFault Value :=
  document.finish (match document.root with
    | some root => root.toValue document.anchors nestingLimit
    | none => pure .null)

section

variable {document : Document} {v : Value}

/-- A document answers if the walk over it does and the text is sound. -/
theorem finish_eq_ok {walk : Walk Value} : document.finish walk = .ok v ↔
    document.sound = true ∧ ∃ left, walk document.aliasLimit = .ok (v, left) := by
  rw [finish, StateT.run]
  cases walk document.aliasLimit with
  | error fault => simp
  | ok answer => cases document.sound <;> simp [Prod.ext_iff, eq_comm]

theorem finish_of_error {walk : Walk Value} {fault : YamlFault}
    (h : walk document.aliasLimit = .error fault) : document.finish walk = .error fault := by
  rw [finish, StateT.run, h]

theorem toValue_of_root {root : Node} (h : document.root = some root) :
    document.toValue = document.finish (root.toValue document.anchors nestingLimit) := by
  rw [toValue, h]

end

end Document

end DocPath.Yaml

namespace DocPath.Value

/-- Reads a document from YAML. -/
def ofYamlText (input : String) : Except YamlFault Value :=
  (Yaml.Document.parse input.toList).toValue

/-- Reads a document from the bytes of YAML. -/
def ofYamlBytes (bytes : ByteArray) : Except YamlFault Value :=
  (Yaml.Document.ofBytes bytes).bind Yaml.Document.toValue

end DocPath.Value
