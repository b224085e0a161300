import DocPath.Document.Value
import DocPath.Json.Parse

/-!
# Documents as JSON

A document becomes a node by structure (`toJson`), or is written straight into tokens
(`jsonTokens`). Numbers that are not finite become null. There are two ways back as well: a node is
read like a text (`Json.toValue`), with an integer by the kind of atom that it is, or converted
(`Value.ofJson`), with an integer if the number is one of 64 signed bits. Either way the integers of
64 signed bits stay integers and every other number is a binary64.
-/

namespace DocPath

/-- The integer of 64 signed bits that an atom is, if it is one. -/
def Json.Atom.toInt64? : Json.Atom → Option Int64
  | .natural n => if n.toNat < Nat.pow 2 63 then some (Int64.ofNat n.toNat) else none
  | .negative n => some n
  | _ => none

/-- The number that an atom is, as a binary64. -/
def Json.Atom.toBinary64? : Json.Atom → Option Binary64
  | .natural n => some (.ofInt n.toNat)
  | .negative n => some (.ofInt n.toInt)
  | .float x => some x
  | _ => none

/-- The value of an atom. -/
def Json.Atom.toValue : Json.Atom → Value
  | .null => .null
  | .bool b => .bool b
  | .natural n => .ofUInt64 n
  | .negative n => .int n
  | .float x => .float x
  | .text s => .text s

mutual

/-- The document of a node. -/
def Json.toValue : Json → Value
  | .atom a => a.toValue
  | .array items => .sequence (Json.toItems items)
  | .object fields => .mapping (Json.toFields fields)

/-- The documents of a list of nodes. -/
def Json.toItems : List Json → List Value
  | [] => []
  | item :: rest => Json.toValue item :: Json.toItems rest

/-- The documents under the keys of an object. -/
def Json.toFields : List (String × Json) → List (String × Value)
  | [] => []
  | (key, item) :: rest => (key, Json.toValue item) :: Json.toFields rest

end

namespace Value

/-- The value that an atom is converted to. -/
def ofAtom (a : Json.Atom) : Value := match a with
  | .null => .null
  | .bool b => .bool b
  | .text s => .text s
  | .natural _ | .negative _ | .float _ => match a.toInt64? with
    | some n => .int n
    | none => .float (a.toBinary64?.getD .nan)

mutual

/-- The document that a node is converted to. -/
def ofJson : Json → Value
  | .atom a => ofAtom a
  | .array items => .sequence (itemsOfJson items)
  | .object fields => .mapping (Fields.ofList (fieldsOfJson fields))

/-- The documents that a list of nodes is converted to. -/
def itemsOfJson : List Json → List Value
  | [] => []
  | item :: rest => ofJson item :: itemsOfJson rest

/-- The documents under the keys of an object that is converted. -/
def fieldsOfJson : List (String × Json) → List (String × Value)
  | [] => []
  | (key, item) :: rest => (key, ofJson item) :: fieldsOfJson rest

end

mutual

/-- The node of a document. -/
def toJson : Value → Json
  | .null => .atom .null
  | .bool b => .atom (.bool b)
  | .int n => .atom (.ofInt64 n)
  | .float x => .atom (.ofBinary64 x)
  | .text s => .atom (.text s)
  | .sequence items => .array (itemsToJson items)
  | .mapping fields => .object (fieldsToJson fields)

/-- The nodes of a list of documents. -/
def itemsToJson : List Value → List Json
  | [] => []
  | item :: rest => toJson item :: itemsToJson rest

/-- The nodes under the keys of a mapping. -/
def fieldsToJson : List (String × Value) → List (String × Json)
  | [] => []
  | (key, item) :: rest => (key, toJson item) :: fieldsToJson rest

end

mutual

/-- The tokens of a document. -/
def jsonTokens : Value → List Json.Token
  | .null => [.atom .null]
  | .bool b => [.atom (.bool b)]
  | .int n => [.atom (.ofInt64 n)]
  | .float x => [.atom (.ofBinary64 x)]
  | .text s => [.atom (.text s)]
  | .sequence items => .openArray :: Json.separate (itemsToTokens items) ++ [.closeArray]
  | .mapping fields => .openObject :: Json.separate (fieldsToTokens fields) ++ [.closeObject]

/-- The tokens of each item. -/
def itemsToTokens : List Value → List (List Json.Token)
  | [] => []
  | item :: rest => jsonTokens item :: itemsToTokens rest

/-- The tokens of each entry. -/
def fieldsToTokens : List (String × Value) → List (List Json.Token)
  | [] => []
  | (key, item) :: rest => (.atom (.text key) :: .colon :: jsonTokens item) :: fieldsToTokens rest

end

/-- A document on one line of JSON. -/
def toJsonText (v : Value) : String := Json.write .compact v.jsonTokens

/-- A document over several lines of JSON. -/
def toPrettyJsonText (v : Value) : String := Json.write .pretty v.jsonTokens

/-- Reads a document from JSON. -/
def ofJsonText? (text : String) : Option Value := (Json.parse? text).map Json.toValue

end Value

end DocPath
