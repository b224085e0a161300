import DocPath.Yaml.Decode

/-!
# Typed values in YAML

A type can also be read from YAML nodes as they stand, without a document value in between. What a
node has to be is then known beforehand, so a scalar that has to be text is taken as it is written,
whatever it would mean by itself, and an empty scalar can stand for an empty collection.
-/

namespace DocPath

/-- Types that can be read from a node, by what the aliases mean. -/
class DecodeYaml (α : Type) where
  decode : Yaml.Anchors → Yaml.Node → Yaml.Walk α

namespace Yaml

/-- The tag of scalars that are null. -/
def nullTag : Tag := .text "tag:yaml.org,2002:null"

/-- Whether a scalar says that nothing is there. A scalar with a tag says so if the tag is the one
of null, and then it may not be anything else. -/
def Node.isAbsent : Node → Walk Bool
  | .scalar properties true text =>
    if properties.tag = some nullTag then
      if Meaning.isNull text then pure true else throw .malformed
    else pure (properties.tag.isNone && (text.isEmpty || Meaning.isNull text))
  | _ => pure false

/-- The items of a node that has to be a sequence. -/
def Node.toItems : Node → Walk (List Node)
  | .sequence _ items => pure items
  | .scalar _ true "" => pure []
  | _ => throw .malformed

/-- The entries of a node that has to be a mapping. -/
def Node.toEntries : Node → Walk (List (Node × Node))
  | .mapping _ entries => pure entries
  | .scalar _ true "" => pure []
  | _ => throw .malformed

/-- The text of a scalar as it is written. -/
def Node.toWritten : Node → Walk String
  | .scalar _ _ text => pure text
  | _ => throw .malformed

end Yaml

instance : DecodeYaml String where
  decode anchors node := do (← node.resolve anchors).toWritten

instance {α : Type} [DecodeYaml α] : DecodeYaml (Option α) where
  decode anchors node := do
    let node ← node.resolve anchors
    if ← node.isAbsent then pure none
    else some <$> DecodeYaml.decode anchors node

instance {α : Type} [DecodeYaml α] : DecodeYaml (List α) where
  decode anchors node := do
    (← (← node.resolve anchors).toItems).mapM (DecodeYaml.decode anchors)

/-- The entries of a mapping, with its keys as they are written. -/
def Yaml.Node.toPairs (anchors : Anchors) (node : Node) : Walk (List (String × Node)) := do
  (← (← node.resolve anchors).toEntries).mapM fun (key, value) => do
    pure (← DecodeYaml.decode anchors key, value)

/-- Entries with text keys; of two with one key the later counts. -/
instance decodeYamlFields {α : Type} [DecodeYaml α] : DecodeYaml (Fields α) where
  decode anchors node := do
    let pairs ← (← node.toPairs anchors).mapM fun (key, value) => do
      pure (key, ← DecodeYaml.decode anchors value)
    pure (Fields.ofList pairs)

/-- Reads a typed value from a document; a text without any document is an empty node. -/
def Yaml.Document.decode {α : Type} [DecodeYaml α] (document : Document) : Except YamlFault α :=
  document.finish (DecodeYaml.decode document.anchors (document.root.getD .empty))

end DocPath
