import Mathlib
import DocPath.Number.Binary64

/-!
# The numbers that binary64 numbers denote

The 64 bits are a sign, 11 bits of exponent and 52 of fraction. A finite binary64 number denotes a
rational: its sign, times its significand, which is the fraction with a one in front unless the
exponent is zero, times a power of two. That is what the units of a number count. A number that is
not finite denotes infinity, or nothing if it is a NaN.
-/

namespace DocPath

/-- What a number denotes: a rational, or infinity of either sign. -/
inductive Quantity where
  | rational (q : ℚ)
  | infinite (negative : Bool)

namespace Binary64

/-- The 52 bits of the fraction. -/
def fraction (x : Binary64) : Nat := x.bits.toNat % Nat.pow 2 52

/-- The 11 bits of the exponent. -/
def exponent (x : Binary64) : Nat := x.bits.toNat / Nat.pow 2 52 % Nat.pow 2 11

/-- The fraction with the one that is not written; the least numbers have none. -/
def significand (x : Binary64) : Nat :=
  if x.exponent = 0 then x.fraction else Nat.pow 2 52 + x.fraction

/-- The number that a finite binary64 number denotes. -/
def toRat (x : Binary64) : ℚ :=
  (if x.isNegative then -1 else 1) * (x.significand : ℚ) * (2 : ℚ) ^ ((max x.exponent 1 : ℤ) - 1075)

/-- What a binary64 number denotes; a NaN denotes nothing. -/
def quantity? (x : Binary64) : Option Quantity :=
  if x.isNaN then none
  else if x.isFinite then some (.rational x.toRat)
  else some (.infinite x.isNegative)

/-- The exponent and the fraction make the pattern. -/
theorem pattern_eq (x : Binary64) : x.pattern = x.fraction + fractionSize * x.exponent := by
  have hpower : Nat.pow 2 63 = 9223372036854775808 := rfl
  have hsize : Nat.pow 2 52 = 4503599627370496 := rfl
  have hexponents : Nat.pow 2 11 = 2048 := rfl
  rw [pattern, fraction, fractionSize, exponent, hpower, hsize, hexponents]
  omega

/-- The units of a number are its significand, shifted by its exponent. -/
theorem units_eq (x : Binary64) : x.units = x.significand * Nat.pow 2 (x.exponent - 1) := by
  have hfraction : x.fraction < fractionSize := Nat.mod_lt _ (Nat.two_pow_pos 52)
  have hpos : 0 < fractionSize := Nat.two_pow_pos 52
  rw [units, unitsOf, significand, x.pattern_eq]
  rcases Nat.eq_zero_or_pos x.exponent with hzero | hexponent
  · rw [hzero, Nat.mul_zero, Nat.add_zero, if_pos hfraction, if_pos rfl]
    exact (Nat.mul_one x.fraction).symm
  · have hlarge : fractionSize ≤ x.fraction + fractionSize * x.exponent :=
      Nat.le_add_left_of_le (Nat.le_mul_of_pos_right _ hexponent)
    rw [if_neg (Nat.not_lt.2 hlarge), if_neg (Nat.ne_of_gt hexponent), Nat.add_mul_mod_self_left,
      Nat.mod_eq_of_lt hfraction, Nat.add_mul_div_left _ _ hpos, Nat.div_eq_of_lt hfraction,
      Nat.zero_add]
    rfl

/-- How many units make one is a power of two; it is too great to be worked out at each use. -/
theorem exists_unitsPerOne_eq_pow : ∃ k, k = 1074 ∧ unitsPerOne = Nat.pow 2 k := by
  unfold unitsPerOne
  generalize 1074 = k
  exact ⟨k, rfl, rfl⟩

theorem unitsPerOne_pos : 0 < unitsPerOne := by
  obtain ⟨k, -, hscale⟩ := exists_unitsPerOne_eq_pow
  rw [hscale]
  exact Nat.two_pow_pos k

/-- A number denotes as many units as it has. -/
theorem toRat_mul_unitsPerOne (x : Binary64) : x.toRat * unitsPerOne = x.signedUnits := by
  have hpower : ∀ k : ℕ, ((Nat.pow 2 k : ℕ) : ℚ) = (2 : ℚ) ^ (k : ℤ) := fun k => by
    rw [zpow_natCast]
    exact Nat.cast_pow 2 k
  obtain ⟨k, hk, hscale⟩ := exists_unitsPerOne_eq_pow
  have hexponent : (max x.exponent 1 : ℤ) - 1075 + k = (x.exponent - 1 : ℕ) := by
    omega
  have hmagnitude : (x.significand : ℚ) * (2 : ℚ) ^ ((max x.exponent 1 : ℤ) - 1075) *
      unitsPerOne = x.units := by
    rw [hscale, hpower, mul_assoc, ← zpow_add₀ two_ne_zero, hexponent, ← hpower,
      ← Nat.cast_mul, ← units_eq]
  rw [toRat, mul_assoc, mul_assoc, ← mul_assoc (x.significand : ℚ), hmagnitude, signedUnits]
  cases x.isNegative <;> simp

end Binary64

end DocPath
