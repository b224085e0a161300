import DocPath.Document.Fields
import DocPath.Number.Shortest

/-!
# JSON nodes

A node is an atom, an array or an object whose keys ascend. Integers that fit 64 bits, signed or
not, are kept apart from all other numbers; a number of any other kind is a finite binary64.
-/

namespace DocPath

namespace Json

/-- A node without parts. `negative` holds integers below zero, `natural` the others. -/
inductive Atom where
  | null
  | bool (b : Bool)
  | natural (n : UInt64)
  | negative (n : Int64)
  | float (x : Binary64)
  | text (s : String)
  deriving DecidableEq, Repr

namespace Atom

/-- An integer. -/
def ofInt64 (n : Int64) : Atom := if n < 0 then .negative n else .natural n.toUInt64

/-- A number; one that is not finite has no JSON form and becomes null. -/
def ofBinary64 (x : Binary64) : Atom := if x.isFinite then .float x else .null

end Atom

end Json

/-- A JSON node. -/
inductive Json where
  | atom (a : Json.Atom)
  | array (items : List Json)
  | object (fields : List (String × Json))
  deriving Inhabited, Repr

end DocPath
