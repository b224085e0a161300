import DocPath.Json.Typed
import DocPath.Yaml.Typed

/-!
# Destination selectors

A selector says which destinations the output, or one directory of it, may go to: those that carry
all of its labels. It is written as a mapping that leaves out a missing directory and an empty set
of labels.
-/

namespace DocPath

/-- Which destinations the output may go to. -/
structure Selector where
  directory : Option String
  labels : Fields String
  deriving DecidableEq, Repr

namespace Selector

def directoryKey : String := "directory"

def labelsKey : String := "matchLabels"

/-- Destinations with these labels, for the whole output. -/
def matching (labels : List (String × String)) : Selector := ⟨none, Fields.ofList labels⟩

/-- The same selector for one directory of the output. -/
def inDirectory (selector : Selector) (directory : String) : Selector :=
  { selector with directory := some directory }

/-- The document of a selector. -/
def toValue (selector : Selector) : Value :=
  .mapping (
    (match selector.directory with
      | some directory => [(directoryKey, .text directory)]
      | none => []) ++
    (if selector.labels.isEmpty then []
      else [(labelsKey, .mapping (selector.labels.map fun (key, text) => (key, .text text)))]))

/-- Reads a part of a selector; a part that is not there has a default. -/
def part? {α : Type} [DecodeJson α] (default : α) : Option Json → Option α
  | none => some default
  | some node => DecodeJson.decode? node

end Selector

/-- A selector is read from an object, or from an array of the directory and the labels. -/
instance : DecodeJson Selector where
  decode? node := do
    let (directory, labels) ← match node with
      | .object fields =>
        some (Fields.get? Selector.directoryKey fields, Fields.get? Selector.labelsKey fields)
      | .array [] => some (none, none)
      | .array [directory] => some (some directory, none)
      | .array [directory, labels] => some (some directory, some labels)
      | _ => none
    let directory ← Selector.part? (none : Option String) directory
    let labels ← Selector.part? ([] : Fields String) labels
    pure ⟨directory, labels⟩

/-- The node under a key of a selector, which may stand there only once. -/
def Selector.onlyUnder (key : String) (pairs : List (String × Yaml.Node)) :
    Yaml.Walk (Option Yaml.Node) :=
  match pairs.filter fun pair => pair.1 = key with
  | [] => pure none
  | [(_, node)] => pure (some node)
  | _ => throw .malformed

/-- A selector is read from a mapping; entries with other keys do not matter. -/
instance : DecodeYaml Selector where
  decode anchors node := do
    let pairs ← node.toPairs anchors
    let directory ← match ← Selector.onlyUnder Selector.directoryKey pairs with
      | some node => DecodeYaml.decode anchors node
      | none => pure none
    let labels ← match ← Selector.onlyUnder Selector.labelsKey pairs with
      | some node => DecodeYaml.decode anchors node
      | none => pure []
    pure ⟨directory, labels⟩

instance : EncodeJson Selector where
  tokens selector := selector.toValue.jsonTokens

end DocPath
