import DocPath.Json.Value

/-!
# Typed values in documents

A type that can be read from a node says how (`DecodeJson`), and one that can be written says by
which tokens (`EncodeJson`). A document node reaches a typed value through its JSON node and the
other way round, so what has no JSON form does not survive: numbers that are not finite become null.
-/

namespace DocPath

/-- Types that can be read from a JSON node. -/
class DecodeJson (α : Type) where
  decode? : Json → Option α

/-- Types that can be written as JSON. -/
class EncodeJson (α : Type) where
  tokens : α → List Json.Token

namespace Json

/-- The nodes of an array. -/
def items? : Json → Option (List Json)
  | .array items => some items
  | _ => none

/-- The entries of an object. -/
def fields? : Json → Option (Fields Json)
  | .object fields => some fields
  | _ => none

/-- The integer that a node is. -/
def toInteger? : Json → Option Int
  | .atom (.natural n) => some n.toNat
  | .atom (.negative n) => some n.toInt
  | _ => none

/-- The integer that a node is, if it lies in a range. -/
def integerIn? (low high : Int) (node : Json) : Option Int :=
  node.toInteger?.bind fun n => if low ≤ n ∧ n ≤ high then some n else none

end Json

instance : DecodeJson Bool where
  decode?
    | .atom (.bool b) => some b
    | _ => none

instance : DecodeJson String where
  decode?
    | .atom (.text s) => some s
    | _ => none

instance : DecodeJson Int64 where
  decode? node := (node.integerIn? (-Int.pow 2 63) (Int.pow 2 63 - 1)).map Int64.ofInt

instance : DecodeJson UInt64 where
  decode? node := (node.integerIn? 0 (Int.pow 2 64 - 1)).map fun n => UInt64.ofNat n.toNat

instance : DecodeJson UInt8 where
  decode? node := (node.integerIn? 0 255).map fun n => UInt8.ofNat n.toNat

instance : DecodeJson Binary64 where
  decode?
    | .atom (.float x) => some x
    | node => node.toInteger?.map Binary64.ofInt

instance : DecodeJson Value where
  decode? node := some node.toValue

/-- Null is the absence of a value. -/
instance {α : Type} [DecodeJson α] : DecodeJson (Option α) where
  decode?
    | .atom .null => some none
    | node => (DecodeJson.decode? node).map some

instance {α : Type} [DecodeJson α] : DecodeJson (List α) where
  decode? node := node.items?.bind fun items => items.mapM DecodeJson.decode?

/-- Entries with text keys, from an object. -/
instance decodeFields {α : Type} [DecodeJson α] : DecodeJson (Fields α) where
  decode? node := node.fields?.bind fun fields =>
    fields.mapM fun (key, item) => (DecodeJson.decode? item).map (key, ·)

instance : EncodeJson Bool where
  tokens b := [.atom (.bool b)]

instance : EncodeJson String where
  tokens s := [.atom (.text s)]

instance : EncodeJson Int64 where
  tokens n := [.atom (.ofInt64 n)]

instance : EncodeJson UInt64 where
  tokens n := [.atom (.natural n)]

instance : EncodeJson UInt8 where
  tokens n := [.atom (.natural n.toUInt64)]

instance : EncodeJson Binary64 where
  tokens x := [.atom (.ofBinary64 x)]

instance : EncodeJson Value where
  tokens := Value.jsonTokens

instance {α : Type} [EncodeJson α] : EncodeJson (Option α) where
  tokens
    | none => [.atom .null]
    | some a => EncodeJson.tokens a

instance {α : Type} [EncodeJson α] : EncodeJson (List α) where
  tokens items := .openArray :: Json.separate (items.map EncodeJson.tokens) ++ [.closeArray]

/-- Entries with text keys, as an object. -/
instance encodeFields {α : Type} [EncodeJson α] : EncodeJson (Fields α) where
  tokens fields := .openObject :: Json.separate (fields.map fun (key, a) =>
    .atom (.text key) :: .colon :: EncodeJson.tokens a) ++ [.closeObject]

/-- Reads a typed value from a document node. -/
def Value.decode? {α : Type} [DecodeJson α] (v : Value) : Option α := DecodeJson.decode? v.toJson

/-- Writes a typed value as a document node. -/
def Value.encode? {α : Type} [EncodeJson α] (a : α) : Option Value :=
  (Json.ofTokens? (EncodeJson.tokens a)).map Value.ofJson

end DocPath
