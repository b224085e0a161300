import DocPath.Json.Basic

/-!
# Reading JSON numbers

    number    =  ["-"] whole [ "." 1*digit ] [ ("e" / "E") ["+" / "-"] 1*digit ]
    whole     =  "0" / digit19 *digit

A number with neither point nor exponent that fits 64 bits is an integer, `-0` apart. Any other one
is a binary64, found from a *significand* of 64 bits and a power of ten: the digits go into the
significand until the next one would not fit, a digit before the point that is left out counts into
the power, and one after the point is ignored. The significand is rounded and then multiplied or
divided once by a rounded power of ten, so the result can be off by the last place. Infinity is
refused.
-/

namespace DocPath.Json

/-- Adds digits to a significand while it fits 64 bits; also says how many digits were left out. -/
def extend : (significand : Nat) → List Char → Nat × Nat
  | significand, [] => (significand, 0)
  | significand, d :: rest =>
    let next := significand * 10 + Numeral.digitValue d
    if next < Nat.pow 2 64 then extend next rest else (significand, rest.length + 1)

/-- A power of ten, rounded. -/
def powerOfTen (k : Nat) : Binary64 := .ofInt (Nat.pow 10 k)

/-- `significand · 10 ^ exponent`, in one operation where a power of ten below infinity does it and
in two for smaller numbers. None when the result is infinite. -/
def scale? (significand : Nat) (exponent : Int) : Option Binary64 :=
  let x := Binary64.ofInt significand
  if significand = 0 then some (.zero false)
  else if 308 < exponent then none
  else if 0 ≤ exponent then
    let y := x.mul (powerOfTen exponent.toNat)
    if y.isFinite then some y else none
  else if -308 ≤ exponent then some (x.div (powerOfTen (-exponent).toNat))
  else if -616 ≤ exponent then
    some ((x.div (powerOfTen 308)).div (powerOfTen (-exponent - 308).toNat))
  else some (.zero false)

/-- An integer with this sign and magnitude, if it is kept as one. -/
def integer? (negative : Bool) (magnitude : Nat) : Option Atom :=
  if negative then
    if 0 < magnitude ∧ magnitude ≤ Nat.pow 2 63 then some (.negative (Int64.ofInt (-magnitude)))
    else none
  else if magnitude < Nat.pow 2 64 then some (.natural (UInt64.ofNat magnitude)) else none

/-- The digits that a text begins with, and the rest. -/
def splitDigits (cs : List Char) : List Char × List Char :=
  (cs.takeWhile Char.isDigit, cs.dropWhile Char.isDigit)

/-- The digits after a point, if there is one; a point without digits is an error. -/
def readFraction? : List Char → Option (List Char × List Char)
  | '.' :: rest =>
    let (digits, rest) := splitDigits rest
    if digits.isEmpty then none else some (digits, rest)
  | cs => some ([], cs)

/-- The exponent, if there is one; an `e` without digits is an error. -/
def readExponent? : List Char → Option (Option Int × List Char)
  | [] => some (none, [])
  | e :: rest =>
    if e = 'e' ∨ e = 'E' then
      let (negative, rest) := Numeral.splitSign rest
      let (digits, rest) := splitDigits rest
      match Numeral.natOfDigits? 10 digits with
      | some n => some (some (if negative then -(n : Int) else n), rest)
      | none => none
    else some (none, e :: rest)

/-- The whole digits: a zero stands alone. -/
def readWhole? (cs : List Char) : Option (List Char × List Char) :=
  let (digits, rest) := splitDigits cs
  match digits with
  | [] => none
  | d :: more => if d = '0' ∧ ¬more.isEmpty then none else some (digits, rest)

/-- The number with these digits and exponent. -/
def number? (negative : Bool) (whole fraction : List Char) (exponent : Option Int) : Option Atom :=
  let (significand, skipped) := extend 0 whole
  let asInteger := if fraction.isEmpty ∧ exponent.isNone ∧ skipped = 0 then
    integer? negative significand else none
  match asInteger with
  | some a => some a
  | none =>
    let (significand, ignored) := extend significand fraction
    let power := (skipped : Int) + ignored - fraction.length + exponent.getD 0
    (scale? significand power).map fun x => .float (if negative then x.neg else x)

/-- Reads the number that a text begins with. -/
def readNumber? (cs : List Char) : Option (Atom × List Char) :=
  let (negative, body) := match cs with
    | '-' :: rest => (true, rest)
    | _ => (false, cs)
  match readWhole? body with
  | none => none
  | some (whole, rest) =>
    match readFraction? rest with
    | none => none
    | some (fraction, rest) =>
      match readExponent? rest with
      | none => none
      | some (exponent, rest) => (number? negative whole fraction exponent).map (·, rest)

end DocPath.Json
