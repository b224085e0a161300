import Mathlib
import DocPath.Document.Value
import DocPath.Number.Denotation
import DocPath.Proofs.Rounding

/-!
# Integers taken from values

The integer of a binary64 number is found by cutting it to an integer of 64 signed bits and looking
whether that one, rounded again, is equal to the number. That is exact within the range, and below
it: the least integer of 64 signed bits is a binary64 number, so nothing less is rounded to it. The
greatest one is not, and the number that it is rounded to, `2 ^ 63`, passes for it.
-/

namespace DocPath

namespace Binary64

/-- The least whole number that is too great for 64 signed bits, `2 ^ 63`. -/
def int64Limit : Binary64 := ⟨0x43e0000000000000⟩

variable {x : Binary64} {n : Int}

/-- A number denotes an integer if it counts so many units. -/
theorem toRat_eq_iff : x.toRat = n ↔ x.signedUnits = n * unitsPerOne := by
  have hscale : (unitsPerOne : ℚ) ≠ 0 := Nat.cast_ne_zero.2 (Nat.ne_of_gt unitsPerOne_pos)
  rw [← mul_left_inj' hscale, toRat_mul_unitsPerOne]
  exact_mod_cast Iff.rfl

theorem eq_of_mul_unitsPerOne {m : Int} (h : n * unitsPerOne = m * unitsPerOne) : n = m :=
  Int.eq_of_mul_eq_mul_right (Int.natCast_ne_zero.2 (Nat.ne_of_gt unitsPerOne_pos)) h

theorem isFinite_of_isIntegral (h : x.isIntegral = true) : x.isFinite = true :=
  (Bool.and_eq_true_iff.1 h).1

/-- A number without a fractional part is an integer. -/
theorem exists_of_isIntegral (h : x.isIntegral = true) :
    ∃ n : Int, x.signedUnits = n * unitsPerOne := by
  have hunits : x.units % unitsPerOne = 0 := by simpa using (Bool.and_eq_true_iff.1 h).2
  obtain ⟨m, hm⟩ := Nat.dvd_of_mod_eq_zero hunits
  have hcast : (x.units : Int) = m * unitsPerOne := by
    rw [hm, Nat.mul_comm, Int.natCast_mul]
  rw [signedUnits]
  cases x.isNegative with
  | true => exact ⟨-m, by rw [if_pos rfl, hcast, Int.neg_mul]⟩
  | false => exact ⟨m, by rw [if_neg Bool.false_ne_true, hcast]⟩

theorem isIntegral_of_signedUnits (hfinite : x.isFinite = true)
    (h : x.signedUnits = n * unitsPerOne) : x.isIntegral = true := by
  have hunits : x.units = n.natAbs * unitsPerOne := by
    rw [← natAbs_signedUnits, h, Int.natAbs_mul, Int.natAbs_natCast]
  rw [isIntegral, hfinite, hunits, Nat.mul_mod_left]
  rfl

/-- Cutting an integer moves it into the range of 64 signed bits. -/
theorem toInt_clamp (h : x.signedUnits = n * unitsPerOne) :
    x.clamp.toInt = max (-9223372036854775808) (min 9223372036854775807 n) := by
  have hscale : (unitsPerOne : Int) ≠ 0 := Int.natCast_ne_zero.2 (Nat.ne_of_gt unitsPerOne_pos)
  have hpower : Int.pow 2 63 = 9223372036854775808 := rfl
  rw [clamp, h, Int.mul_tdiv_cancel n hscale, hpower]
  exact Int64.toInt_ofInt_of_le (by omega) (by omega)

/-- Numbers that are equal and not zero are the same. -/
theorem eq_of_equals {y : Binary64} (h : x.equals y = true) (hx : x.pattern ≠ 0) : x = y := by
  rw [equals] at h
  simp only [Bool.and_eq_true, Bool.or_eq_true, beq_iff_eq] at h
  exact eq_of_pattern_eq h.2.1 (h.2.2.resolve_right hx)

/-! ### The ends of the range -/

/-- The greatest integer of 64 signed bits is rounded up. -/
theorem ofInt_maxValue : ofInt 9223372036854775807 = int64Limit :=
  (ofInt_long 10 (by decide) (by decide) (by decide)).trans (by decide)

/-- The least one is a binary64 number. -/
theorem ofInt_minValue : ofInt (-9223372036854775808) = ⟨0xc3e0000000000000⟩ :=
  (ofInt_long 11 (by decide) (by decide) (by decide)).trans (by decide)

theorem signedUnits_minValue :
    (⟨0xc3e0000000000000⟩ : Binary64).signedUnits = -9223372036854775808 * unitsPerOne := by
  rw [← ofInt_minValue, signedUnits_ofInt_long 11 (by decide) (by decide) (by decide)]
  rfl

/-- How a natural number that takes all of 64 bits is rounded to a multiple of `2 ^ 11`. -/
theorem roundDiv_eq_iff {m : Nat} (h : 9223372036854775808 ≤ m) :
    roundDiv m 2048 = 4503599627370496 ↔ m ≤ 9223372036854776832 := by
  rw [roundDiv]
  split
  · omega
  · split <;> omega

variable {m : Nat}

theorem signedUnits_ofInt_large (h : 9223372036854775808 ≤ m) (hlt : m < 18446744073709551616) :
    9223372036854775808 ≤ roundDiv m 2048 * 2048 ∧
      (ofInt m).signedUnits = (roundDiv m 2048 * 2048 : Nat) * unitsPerOne := by
  have hunits := signedUnits_ofInt_long (n := m) 11 (by decide) h hlt
  have hge := (roundDiv_long (n := m) 11 h hlt).1
  rw [Int.sign_natCast_of_ne_zero (by omega), Int.natAbs_natCast, Int.one_mul] at hunits
  exact ⟨Nat.mul_le_mul_right 2048 hge, hunits⟩

/-- It is `2 ^ 63` for the first of these numbers, up to half way to the next multiple. -/
theorem ofInt_eq_int64Limit (h : 9223372036854775808 ≤ m) (hlt : m < 18446744073709551616) :
    ofInt m = int64Limit ↔ m ≤ 9223372036854776832 := by
  have hpower : Nat.pow 2 63 = 9223372036854775808 := rfl
  have hsize : fractionSize = 4503599627370496 := rfl
  have hlimit : int64Limit = ofPattern false ((1074 + 11) * fractionSize + fractionSize) := by
    decide
  have hinteger : ofInt m = ofPattern false ((1074 + 11) * fractionSize + roundDiv m 2048) := by
    rw [ofInt_long (n := m) 11 (by decide) h hlt,
      decide_eq_false (Int.not_lt.2 (Int.natCast_nonneg m))]
    rfl
  have hle : roundDiv m 2048 ≤ 2 * fractionSize := (roundDiv_long (n := m) 11 h hlt).2
  rw [hinteger, hlimit, ← roundDiv_eq_iff h]
  constructor
  · intro heq
    have hpattern := congrArg pattern heq
    rw [pattern_ofPattern _ (by omega), pattern_ofPattern _ (by omega)] at hpattern
    omega
  · intro heq
    rw [heq, hsize]

theorem signedUnits_int64Limit : int64Limit.signedUnits = 9223372036854775808 * unitsPerOne := by
  have hlimit : ofInt (9223372036854775808 : Nat) = int64Limit :=
    (ofInt_eq_int64Limit (Nat.le_refl _) (by decide)).2 (by decide)
  rw [← hlimit, (signedUnits_ofInt_large (Nat.le_refl _) (by decide)).2,
    (roundDiv_eq_iff (Nat.le_refl _)).2 (by decide)]
  rfl

end Binary64

namespace Value

open Binary64

/-- Cutting and comparing finds the integer that a binary64 number denotes, and one more. -/
theorem toInt64?_float_eq_some {x : Binary64} {n : Int64} :
    (float x).toInt64? = some n ↔
      x.isFinite = true ∧ x.toRat = n.toInt ∨ x = int64Limit ∧ n = Int64.maxValue := by
  constructor
  · intro h
    have hchecked : (x.isIntegral && (Binary64.ofInt x.clamp.toInt).equals x) = true := by
      by_contra hfails
      rw [toInt64?, if_neg hfails] at h
      cases h
    rw [toInt64?, if_pos hchecked] at h
    obtain rfl : x.clamp = n := Option.some.inj h
    obtain ⟨hintegral, hequals⟩ := Bool.and_eq_true_iff.1 hchecked
    obtain ⟨z, hz⟩ := exists_of_isIntegral hintegral
    have hclamp := toInt_clamp hz
    rcases Int.lt_or_le z (-9223372036854775808) with hbelow | hge
    · -- the least integer is rounded to itself, and that is not what was cut
      have hcut : x.clamp.toInt = -9223372036854775808 := by omega
      rw [hcut, ofInt_minValue] at hequals
      rw [← eq_of_equals hequals (by decide), signedUnits_minValue] at hz
      exact absurd (eq_of_mul_unitsPerOne hz) (Int.ne_of_gt hbelow)
    rcases Int.lt_or_le 9223372036854775807 z with habove | hle
    · have hcut : x.clamp.toInt = 9223372036854775807 := by omega
      have hmax : x.clamp = Int64.maxValue := Int64.toInt_inj.1 hcut
      rw [hcut, ofInt_maxValue] at hequals
      exact .inr ⟨(eq_of_equals hequals (by decide)).symm, hmax⟩
    · have hcut : x.clamp.toInt = z := by omega
      exact .inl ⟨isFinite_of_isIntegral hintegral, toRat_eq_iff.2 (hcut ▸ hz)⟩
  · rintro (⟨hfinite, hvalue⟩ | ⟨rfl, rfl⟩)
    · have hz := toRat_eq_iff.1 hvalue
      have hcut : x.clamp = n := by
        have hclamp := toInt_clamp hz
        have hge : -2 ^ 63 ≤ n.toInt := n.le_toInt
        have hlt : n.toInt < 2 ^ 63 := n.toInt_lt
        exact Int64.toInt_inj.1 (by omega)
      rw [toInt64?, hcut, isIntegral_of_signedUnits hfinite hz, equals_ofInt hfinite hz]
      rfl
    · have hfinite : int64Limit.isFinite = true := by decide
      have hcut : int64Limit.clamp = Int64.maxValue :=
        Int64.toInt_inj.1 (toInt_clamp signedUnits_int64Limit)
      have hmax : Int64.maxValue.toInt = 9223372036854775807 := rfl
      have hequals : int64Limit.equals int64Limit = true := by decide
      rw [toInt64?, hcut, isIntegral_of_signedUnits hfinite signedUnits_int64Limit,
        hmax, ofInt_maxValue, hequals]
      rfl

/-- A value is an integer, or denotes one of 64 signed bits as a binary64 number. -/
def DenotesInt (v : Value) (n : Int64) : Prop :=
  v = .int n ∨ ∃ x, v = .float x ∧ x.isFinite = true ∧ x.toRat = n.toInt

theorem toInt64?_eq_some {v : Value} {n : Int64} :
    v.toInt64? = some n ↔ v.DenotesInt n ∨ v = .float int64Limit ∧ n = Int64.maxValue := by
  cases v with
  | int m => simp [toInt64?, DenotesInt]
  | float x => simp [toInt64?_float_eq_some, DenotesInt]
  | _ => simp [toInt64?, DenotesInt]

/-- `2 ^ 63` is no integer of 64 signed bits. -/
theorem not_denotesInt_int64Limit (n : Int64) : ¬(float int64Limit).DenotesInt n := by
  rintro (heq | ⟨x, heq, -, hvalue⟩)
  · cases heq
  · cases heq
    have hunits := toRat_eq_iff.1 hvalue
    rw [signedUnits_int64Limit] at hunits
    have hn : 2 ^ 63 = n.toInt := eq_of_mul_unitsPerOne hunits
    exact absurd hn (Int.ne_of_gt n.toInt_lt)

theorem toInt64?_ofUInt64_large {u : UInt64} (h : 9223372036854775808 ≤ u.toNat) :
    (ofUInt64 u).toInt64? = if u.toNat ≤ 2 ^ 63 + 1024 then some Int64.maxValue else none := by
  have hlt : u.toNat < 18446744073709551616 := u.toNat_lt
  have hfloat : ofUInt64 u = float (Binary64.ofInt u.toNat) := if_neg (Nat.not_lt.2 h)
  have hlimit := ofInt_eq_int64Limit h hlt
  rw [hfloat]
  split
  · rename_i hnear
    exact toInt64?_float_eq_some.2 (.inr ⟨hlimit.2 hnear, rfl⟩)
  · rename_i hfar
    refine Option.eq_none_iff_forall_ne_some.2 fun n hn => ?_
    rcases toInt64?_float_eq_some.1 hn with ⟨-, hvalue⟩ | ⟨heq, -⟩
    · -- what it is rounded to is an integer, but one out of the range
      obtain ⟨hge, hunits⟩ := signedUnits_ofInt_large h hlt
      have hn := eq_of_mul_unitsPerOne (hunits.symm.trans (toRat_eq_iff.1 hvalue))
      have hrange : n.toInt < 2 ^ 63 := n.toInt_lt
      omega
    · exact hfar (hlimit.1 heq)

/-- A natural number of 64 bits is found again below `2 ^ 63`; from there on it is taken for the
greatest integer as long as it is rounded to `2 ^ 63`, and then for none. -/
theorem toInt64?_ofUInt64 (u : UInt64) :
    (ofUInt64 u).toInt64?.map Int64.toInt =
      if u.toNat < 2 ^ 63 then some (u.toNat : Int)
      else if u.toNat ≤ 2 ^ 63 + 1024 then some (2 ^ 63 - 1) else none := by
  split
  · rename_i hsmall
    have hvalue : (Int64.ofNat u.toNat).toInt = u.toNat := Int64.toInt_ofNat_of_lt hsmall
    rw [ofUInt64_eq_int hvalue.symm, toInt64?, Option.map_some, hvalue]
  · rename_i hlarge
    rw [toInt64?_ofUInt64_large (Nat.not_lt.1 hlarge), apply_ite (Option.map Int64.toInt)]
    rfl

/-- The integer that is taken from a value is the one that it denotes, and there is one whenever the
value denotes one of 64 signed bits. That is so of every value but `2 ^ 63`, which is taken for the
greatest integer, and with it of the natural numbers that are rounded to `2 ^ 63`. -/
theorem toInt64?_exact_iff (v : Value) (u : UInt64) :
    ((∀ n, v.toInt64? = some n ↔ v.DenotesInt n) ↔ v ≠ float int64Limit) ∧
    (∀ n, v.toInt64? = some n ↔ v.DenotesInt n ∨ v = float int64Limit ∧ n = Int64.maxValue) ∧
    (ofUInt64 u).toInt64?.map Int64.toInt =
      if u.toNat < 2 ^ 63 then some (u.toNat : Int)
      else if u.toNat ≤ 2 ^ 63 + 1024 then some (2 ^ 63 - 1) else none := by
  refine ⟨⟨fun hexact hv => ?_, fun hv n => ?_⟩, fun _ => toInt64?_eq_some, toInt64?_ofUInt64 u⟩
  · have hmax := toInt64?_eq_some.2 (.inr ⟨hv, rfl⟩)
    rw [hexact Int64.maxValue, hv] at hmax
    exact not_denotesInt_int64Limit Int64.maxValue hmax
  · rw [toInt64?_eq_some, or_iff_left fun hlimit => hv hlimit.1]

/-- `2 ^ 63` as a binary64 number, and as a natural number of 64 bits, is taken for the greatest
integer, which it does not denote. -/
theorem toInt64?_int64Limit :
    (float int64Limit).toInt64? = some Int64.maxValue ∧
    (ofUInt64 9223372036854775808).toInt64? = some Int64.maxValue ∧
    ¬(float int64Limit).DenotesInt Int64.maxValue ∧
    ¬∀ (v : Value) (n : Int64), v.toInt64? = some n ↔ v.DenotesInt n := by
  have hlimit : (float int64Limit).toInt64? = some Int64.maxValue :=
    toInt64?_eq_some.2 (.inr ⟨rfl, rfl⟩)
  have hnatural : (ofUInt64 9223372036854775808).toInt64? = some Int64.maxValue :=
    toInt64?_ofUInt64_large (Nat.le_refl _)
  have hother := not_denotesInt_int64Limit Int64.maxValue
  exact ⟨hlimit, hnatural, hother, fun hexact => hother ((hexact _ _).1 hlimit)⟩

end Value

end DocPath
