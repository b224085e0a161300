import DocPath.Document.Fields
import DocPath.Number.Binary64

/-!
# Document values

A document is a tree: mappings and sequences with scalars at the leaves. Integers are those of 64
signed bits, and every other number is a binary64. The root of a document is just a value, so each
operation works from whichever node it is applied to.
-/

namespace DocPath

/-- A node of a document. -/
inductive Value where
  | null
  | bool (b : Bool)
  | int (n : Int64)
  | float (x : Binary64)
  | text (s : String)
  | sequence (items : List Value)
  | mapping (fields : List (String × Value))
  deriving Inhabited, Repr

/-- The kinds of node that a message distinguishes. -/
inductive Kind where
  | null
  | boolean
  | number
  | string
  | array
  | object
  deriving DecidableEq, Repr

/-- How a message calls a kind. -/
def Kind.name : Kind → String
  | .null => "null"
  | .boolean => "boolean"
  | .number => "number"
  | .string => "string"
  | .array => "array"
  | .object => "object"

namespace Value

def kind : Value → Kind
  | .null => .null
  | .bool _ => .boolean
  | .int _ | .float _ => .number
  | .text _ => .string
  | .sequence _ => .array
  | .mapping _ => .object

def isNull (v : Value) : Bool := v.kind = .null

def isNumber (v : Value) : Bool := v.kind = .number

def isSequence (v : Value) : Bool := v.kind = .array

def isMapping (v : Value) : Bool := v.kind = .object

/-- Whether the node can hold others. -/
def isContainer (v : Value) : Bool := v.isMapping || v.isSequence

def toBool? : Value → Option Bool
  | .bool b => some b
  | _ => none

def toText? : Value → Option String
  | .text s => some s
  | _ => none

def toItems? : Value → Option (List Value)
  | .sequence items => some items
  | _ => none

def toFields? : Value → Option (Fields Value)
  | .mapping fields => some fields
  | _ => none

/-- The integer of a number. A binary64 number counts when it is whole and the integer it is cut to,
kept in the 64-bit range, reads back as the same number. -/
def toInt64? : Value → Option Int64
  | .int n => some n
  | .float x =>
    let n := x.clamp
    if x.isIntegral && (Binary64.ofInt n.toInt).equals x then some n else none
  | _ => none

/-- The number as a binary64, an integer rounded to the nearest one. -/
def toBinary64? : Value → Option Binary64
  | .int n => some (.ofInt n.toInt)
  | .float x => some x
  | _ => none

/-- A natural number of 64 bits: an integer if it fits, else the nearest binary64. -/
def ofUInt64 (n : UInt64) : Value :=
  if n.toNat < Nat.pow 2 63 then .int (Int64.ofNat n.toNat) else .float (.ofInt n.toNat)

/-- A natural number that is an integer of 64 signed bits is that integer. -/
theorem ofUInt64_eq_int {m : UInt64} {n : Int64} (h : (m.toNat : Int) = n.toInt) :
    ofUInt64 m = .int n := by
  have hlt : n.toInt < 2 ^ 63 := n.toInt_lt
  have hpower : Nat.pow 2 63 = 2 ^ 63 := rfl
  have hsmall : m.toNat < Nat.pow 2 63 := by omega
  rw [ofUInt64, if_pos hsmall, ← Int64.ofInt_eq_ofNat, h, Int64.ofInt_toInt]

end Value

end DocPath
