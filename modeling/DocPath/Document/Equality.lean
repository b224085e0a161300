import DocPath.Document.Value

/-!
# Equality of values

Two numbers are equal when they are equal as binary64 numbers, or as integers if both are integers,
so `3` and `3.0` are equal values though different nodes. Containers are compared entry by entry.
-/

namespace DocPath

namespace Value

/-- Equality of two scalars; containers are never equal here. -/
def scalarEquals : Value → Value → Bool
  | .null, .null => true
  | .bool a, .bool b => a == b
  | .int a, .int b => a == b
  | .float a, .float b => a.equals b
  | .int a, .float b => (Binary64.ofInt a.toInt).equals b
  | .float a, .int b => (Binary64.ofInt b.toInt).equals a
  | .text a, .text b => a == b
  | _, _ => false

mutual

/-- Equality of values, across the two kinds of number. -/
def equals : Value → Value → Bool
  | .sequence a, other => match other with
    | .sequence b => itemsEqual a b
    | _ => false
  | .mapping a, other => match other with
    | .mapping b => fieldsEqual a b
    | _ => false
  | scalar, other => scalarEquals scalar other

/-- Equality of two lists of values, place by place. -/
def itemsEqual : List Value → List Value → Bool
  | [], others => others.isEmpty
  | a :: rest, others => match others with
    | [] => false
    | b :: more => equals a b && itemsEqual rest more

/-- Equality of two lists of entries, place by place. -/
def fieldsEqual : List (String × Value) → List (String × Value) → Bool
  | [], others => others.isEmpty
  | (k, a) :: rest, others => match others with
    | [] => false
    | (l, b) :: more => k == l && equals a b && fieldsEqual rest more

end

instance : BEq Value := ⟨equals⟩

/-- Whether a value is equal to an integer. -/
def equalsInt (v : Value) (n : Int64) : Bool := v == .int n

/-- Whether a value is equal to an integer of 32 bits. -/
def equalsInt32 (v : Value) (n : Int32) : Bool := v == .int n.toInt64

/-- Whether a value is equal to a binary64 number. -/
def equalsFloat (v : Value) (x : Binary64) : Bool := v == .float x

/-- Whether a value is this text. -/
def equalsText (v : Value) (s : String) : Bool := v.toText? == some s

/-- Whether a value is this truth value. -/
def equalsBool (v : Value) (b : Bool) : Bool := v.toBool? == some b

end Value

end DocPath
