/-!
# Binary64 numbers

A binary64 number is held as its 64 bits: a sign, then a 63-bit *pattern* (11 bits of exponent, 52
of fraction). Patterns are ordered like the magnitudes they stand for, and every finite magnitude is
a whole number of *units* of `2 ^ -1074`. So rounding, equality and truncation are questions about
natural numbers, and nothing here rests on the machine's own floating point.

    pattern   0 ……… 2^52 ……… 2·2^52 ……… 2047·2^52 ………
    units     0,1,2,… (gap 1) (gap 1)  (gap 2) …  ∞     NaN
-/

namespace DocPath

/-- A binary64 number, as its bits. -/
structure Binary64 where
  bits : UInt64
  deriving DecidableEq, Repr

namespace Binary64

/-- How many fraction bits a pattern ends in. -/
def fractionSize : Nat := Nat.pow 2 52

/-- Whether the sign bit is set. -/
def isNegative (x : Binary64) : Bool := decide (Nat.pow 2 63 ≤ x.bits.toNat)

/-- The bits below the sign. -/
def pattern (x : Binary64) : Nat := x.bits.toNat % Nat.pow 2 63

/-- The pattern of infinity: the first one that stands for no finite magnitude. -/
def infinitePattern : Nat := 2047 * fractionSize

/-- The number with this sign and pattern. -/
def ofPattern (negative : Bool) (pattern : Nat) : Binary64 :=
  ⟨UInt64.ofNat (if negative then Nat.pow 2 63 + pattern else pattern)⟩

/-- The one not-a-number that this library writes. -/
def nan : Binary64 := ⟨0x7ff8000000000000⟩

/-- Infinity of either sign. -/
def infinity (negative : Bool) : Binary64 := ofPattern negative infinitePattern

/-- Zero of either sign. -/
def zero (negative : Bool) : Binary64 := ofPattern negative 0

def isNaN (x : Binary64) : Bool := decide (infinitePattern < x.pattern)

def isFinite (x : Binary64) : Bool := decide (x.pattern < infinitePattern)

/-- The units of `2 ^ -1074` that a finite pattern stands for. Infinity gets the value that the
finite patterns would continue with. -/
def unitsOf (pattern : Nat) : Nat :=
  if pattern < fractionSize then pattern
  else (fractionSize + pattern % fractionSize) * Nat.pow 2 (pattern / fractionSize - 1)

/-- The magnitude of a finite number, in units of `2 ^ -1074`. -/
def units (x : Binary64) : Nat := unitsOf x.pattern

/-- How many units make one. -/
def unitsPerOne : Nat := Nat.pow 2 1074

/-- A finite number as a signed count of units. -/
def signedUnits (x : Binary64) : Int := if x.isNegative then -(x.units : Int) else x.units

/-- The natural number nearest to `num / den`; a tie goes to the even neighbour. -/
def roundDiv (num den : Nat) : Nat :=
  let quotient := num / den
  let twice := 2 * (num % den)
  if twice < den then quotient
  else if den < twice then quotient + 1
  else quotient + quotient % 2

/-- The pattern nearest to `num / den` units, ties to even, infinite when no finite one is near
enough. The quotient's size picks the gap between neighbours, and a mantissa that rounds up to the
next power of two carries into the exponent by itself. -/
def patternOfRatio (num den : Nat) : Nat :=
  let gap := (num / den).log2 - 52
  min (gap * fractionSize + roundDiv num (den * Nat.pow 2 gap)) infinitePattern

/-- The number nearest to `num / den`, with the given sign. -/
def ofRatio (negative : Bool) (num den : Nat) : Binary64 :=
  ofPattern negative (patternOfRatio (num * unitsPerOne) den)

/-- The number nearest to an integer. -/
def ofInt (n : Int) : Binary64 := ofRatio (decide (n < 0)) n.natAbs 1

/-- The product of two finite numbers, rounded once. -/
def mul (x y : Binary64) : Binary64 :=
  ofPattern (x.isNegative != y.isNegative) (patternOfRatio (x.units * y.units) unitsPerOne)

/-- The quotient of two finite numbers, rounded once; the divisor is not zero. -/
def div (x y : Binary64) : Binary64 :=
  ofPattern (x.isNegative != y.isNegative) (patternOfRatio (x.units * unitsPerOne) y.units)

/-- The number with the other sign. -/
def neg (x : Binary64) : Binary64 := ofPattern (!x.isNegative) x.pattern

/-- Numeric equality: a NaN equals nothing, and the two zeros are equal. -/
def equals (x y : Binary64) : Bool :=
  !x.isNaN && !y.isNaN &&
    (x.pattern == y.pattern && (x.isNegative == y.isNegative || x.pattern == 0))

/-- Whether the number is finite and has no fractional part. -/
def isIntegral (x : Binary64) : Bool := x.isFinite && x.units % unitsPerOne == 0

/-- A finite number cut to an integer toward zero, then moved into the 64-bit range. -/
def clamp (x : Binary64) : Int64 :=
  Int64.ofInt (max (-Int.pow 2 63) (min (Int.pow 2 63 - 1) (x.signedUnits.tdiv unitsPerOne)))

end Binary64

end DocPath
