import DocPath.Number.Numeral

/-!
# What a plain scalar means

A scalar without quotes is null, a truth value, a number or else text. Integers are decimal, or have
the base in front (`0x`, `0o`, `0b`). Digits after a leading zero are text, not a number. An integer
of 64 bits, signed or not, is kept as one; a wider one of up to 128 bits is recognised as an integer
still, and any other goes by the rule for decimals.
-/

namespace DocPath.Yaml

/-- What a plain scalar means. -/
inductive Meaning where
  | null
  | bool (b : Bool)
  /-- An integer of 64 bits, signed or not. -/
  | integer (n : Int)
  /-- An integer of 128 bits that 64 bits do not hold. -/
  | wide
  | float (x : Binary64)
  | text
  deriving DecidableEq, Repr

namespace Meaning

def isNull (s : String) : Bool := s = "null" || s = "Null" || s = "NULL" || s = "~"

/-- The truth value that a text names. -/
def bool? (s : String) : Option Bool :=
  if s = "true" ∨ s = "True" ∨ s = "TRUE" then some true
  else if s = "false" ∨ s = "False" ∨ s = "FALSE" then some false
  else none

/-- Digits with a needless leading zero, perhaps after a sign. -/
def isPadded (cs : List Char) : Bool :=
  match (Numeral.splitSign cs).2 with
  | '0' :: d :: rest => (d :: rest).all Char.isDigit
  | _ => false

/-- The natural number that a text without a sign denotes. -/
def natural? : List Char → Option Nat
  | '0' :: 'x' :: digits => Numeral.natOfDigits? 16 digits
  | '0' :: 'o' :: digits => Numeral.natOfDigits? 8 digits
  | '0' :: 'b' :: digits => Numeral.natOfDigits? 2 digits
  | digits => Numeral.natOfDigits? 10 digits

/-- The integer that a text denotes. -/
def int? (cs : List Char) : Option Int :=
  if isPadded cs then none
  else
    let (negative, body) := Numeral.splitSign cs
    (natural? body).map fun n => if negative then -(n : Int) else n

/-- An integer by its size; beyond 128 bits it is none. -/
def ofInt? (n : Int) : Option Meaning :=
  if -Int.pow 2 63 ≤ n ∧ n < Int.pow 2 64 then some (.integer n)
  else if -Int.pow 2 127 ≤ n ∧ n < Int.pow 2 128 then some .wide
  else none

/-- The integer that a text means. -/
def integer? (s : String) : Option Meaning := (int? s.toList).bind ofInt?

/-- The number that a decimal numeral denotes, unless it is too large. -/
def decimal? (cs : List Char) : Option Binary64 :=
  match Numeral.parse? cs with
  | some numeral => if numeral.toBinary64.isFinite then some numeral.toBinary64 else none
  | none => none

/-- The decimal that a text denotes, or infinity or no number by name. -/
def float? (s : String) : Option Binary64 :=
  if s = ".inf" ∨ s = ".Inf" ∨ s = ".INF" ∨ s = "+.inf" ∨ s = "+.Inf" ∨ s = "+.INF" then
    some (.infinity false)
  else if s = "-.inf" ∨ s = "-.Inf" ∨ s = "-.INF" then some (.infinity true)
  else if s = ".nan" ∨ s = ".NaN" ∨ s = ".NAN" then some .nan
  else decimal? s.toList

/-- What a plain scalar means. -/
def ofPlain (s : String) : Meaning :=
  if s.isEmpty || isNull s then .null
  else match bool? s with
    | some b => .bool b
    | none => match integer? s with
      | some meaning => meaning
      | none =>
        if isPadded s.toList then .text
        else match float? s with
          | some x => .float x
          | none => .text

end Meaning

end DocPath.Yaml
