import DocPath.Number.Numeral

/-!
# Writing binary64 numbers with the fewest digits

The reals that round to a number lie between the midpoints to its two neighbours, ends included
exactly when its pattern is even. Among the decimals in that interval those with the fewest digits
are wanted, and of these the nearest. `shortest` tries one digit, two digits, …: on the grid of each
length only the two points around the number can be nearest, so two tests per length are enough.

How the digits are laid out is a separate choice, made once per output format in a `NumberStyle`.
-/

namespace DocPath

/-- Which of two equally near decimals is written. -/
inductive Tie where
  | toEven
  | away
  deriving DecidableEq, Repr

/-- A positive decimal `digits · 10 ^ exponent`. -/
structure Decimal where
  digits : Nat
  exponent : Int
  deriving DecidableEq, Repr

namespace Decimal

/-- The power of ten of the leading digit of `num / den`, for a positive quotient. -/
def leadingPower (num den : Nat) : Int :=
  if den ≤ num then Numeral.size (num / den) - 1
  else -(Numeral.size ((den + num - 1) / num - 1) : Int)

/-- Whether `c · den` points of a grid fall into the rounding interval of a pattern, all lengths in
units times `num`: at the ends only even patterns are hit. -/
def inInterval (pattern num den c : Nat) : Bool :=
  let low := (Binary64.unitsOf (pattern - 1) + Binary64.unitsOf pattern) * num
  let high := (Binary64.unitsOf (pattern + 1) + Binary64.unitsOf pattern) * num
  let point := 2 * c * den
  if pattern % 2 = 0 then decide (low ≤ point ∧ point ≤ high)
  else decide (low < point ∧ point < high)

/-- The grid point that a pattern is written as, if one of the two around it reads back. A unit is
`num / den` steps of the grid. -/
def onGrid? (tie : Tie) (pattern num den : Nat) : Option Nat :=
  let scaled := Binary64.unitsOf pattern * num
  let below := scaled / den
  let above := below + 1
  match inInterval pattern num den below, inInterval pattern num den above with
  | false, false => none
  | true, false => some below
  | false, true => some above
  | true, true =>
    let middle := (below + above) * den
    if 2 * scaled < middle then some below
    else if middle < 2 * scaled then some above
    else match tie with
      | .away => some above
      | .toEven => some (below + below % 2)

/-- Tries grids of `count` digits and more, `fuel` of them; `power` is the power of the leading
digit. -/
def search (tie : Tie) (pattern : Nat) (power : Int) : (fuel count : Nat) → Decimal
  | 0, count =>
    let exponent := power + 1 - count
    ⟨Binary64.unitsOf pattern * Nat.pow 10 (-exponent).toNat /
      (Binary64.unitsPerOne * Nat.pow 10 exponent.toNat), exponent⟩
  | fuel + 1, count =>
    let exponent := power + 1 - count
    match onGrid? tie pattern (Nat.pow 10 (-exponent).toNat)
        (Binary64.unitsPerOne * Nat.pow 10 exponent.toNat) with
    | some digits => ⟨digits, exponent⟩
    | none => search tie pattern power fuel (count + 1)

/-- The same decimal without up to `fuel` of its trailing zeros. -/
def trim : (fuel : Nat) → Decimal → Decimal
  | 0, x => x
  | fuel + 1, x => if x.digits % 10 = 0 then trim fuel ⟨x.digits / 10, x.exponent + 1⟩ else x

/-- The shortest decimal that reads back as a positive finite pattern, and of these the nearest.
Seventeen digits always suffice; the point above the number may be a power of ten, whose zeros go.
-/
def shortest (tie : Tie) (pattern : Nat) : Decimal :=
  trim 17 (search tie pattern (leadingPower (Binary64.unitsOf pattern) Binary64.unitsPerOne) 17 1)

end Decimal

/-- The decisions of an output format about numbers that are not integers. -/
structure NumberStyle where
  tie : Tie
  /-- Which positions of the point, counted from the first digit, are written without an exponent.
  -/
  positional : Int → Bool
  /-- What follows a number without fractional digits. -/
  wholeSuffix : String
  /-- What precedes a positive exponent. -/
  plus : String
  nan : String
  infinity : String

namespace NumberStyle

/-- Digits with the point after the first `point` of them, filled up with zeros on either side. -/
def layPositional (wholeSuffix : String) (digits : String) (point : Int) : String :=
  if point ≤ 0 then
    "0." ++ String.ofList (List.replicate (-point).toNat '0') ++ digits
  else if digits.length ≤ point.toNat then
    digits ++ String.ofList (List.replicate (point.toNat - digits.length) '0') ++ wholeSuffix
  else
    String.ofList (digits.toList.take point.toNat) ++ "." ++
      String.ofList (digits.toList.drop point.toNat)

/-- Digits with the point after the first one, and the exponent that makes up for it. -/
def layScientific (plus : String) (digits : String) (exponent : Int) : String :=
  let mantissa := match digits.toList with
    | [] => ""
    | [d] => String.ofList [d]
    | d :: rest => String.ofList (d :: '.' :: rest)
  mantissa ++ "e" ++ (if 0 ≤ exponent then plus else "") ++ toString exponent

/-- A positive decimal in this style. -/
def layDecimal (style : NumberStyle) (x : Decimal) : String :=
  let digits := toString x.digits
  let point := x.exponent + digits.length
  if style.positional point then layPositional style.wholeSuffix digits point
  else layScientific style.plus digits (point - 1)

/-- A number in this style. -/
def format (style : NumberStyle) (x : Binary64) : String :=
  if x.isNaN then style.nan
  else
    let sign := if x.isNegative then "-" else ""
    if !x.isFinite then sign ++ style.infinity
    else if x.pattern = 0 then
      sign ++ layPositional style.wholeSuffix "0" 1
    else sign ++ style.layDecimal (Decimal.shortest style.tie x.pattern)

/-- Plain text: always positional, whole numbers without a point. -/
def plain : NumberStyle where
  tie := .away
  positional := fun _ => true
  wholeSuffix := ""
  plus := ""
  nan := "NaN"
  infinity := "inf"

end NumberStyle

end DocPath
