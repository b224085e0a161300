import Mathlib
import DocPath.Number.Denotation

/-!
# Rounding to a binary64

Rounding takes the gap between neighbours from the size of a magnitude and rounds the quotient by
that gap to a mantissa. Every pattern is made of a gap and a mantissa, and stands for their product
also where the mantissa is carried into the next gap (`unitsOf_mantissa`). So a magnitude that has a
pattern is rounded to it (`patternOfRatio_unitsOf`), nothing is rounded across one that has
(`patternOfRatio_le`), and an integer that a number stands for is rounded to a number equal to that
(`equals_ofInt`). An integer with more digits than a mantissa has loses the last ones: it is rounded
to a multiple of a power of two (`signedUnits_ofInt_long`).
-/

namespace DocPath

namespace Binary64

/-! ### Signs and patterns -/

theorem infinitePattern_lt : infinitePattern < Nat.pow 2 63 := by decide

theorem fractionSize_pos : 0 < fractionSize := by decide

theorem pattern_ofPattern (negative : Bool) {pattern : Nat} (h : pattern < Nat.pow 2 63) :
    (ofPattern negative pattern).pattern = pattern := by
  have hpower : Nat.pow 2 63 = 9223372036854775808 := rfl
  rw [hpower] at h
  rw [Binary64.pattern, ofPattern, hpower, UInt64.toNat_ofNat']
  cases negative <;> simp only [if_true, Bool.false_eq_true, if_false] <;> omega

theorem isNegative_ofPattern (negative : Bool) {pattern : Nat} (h : pattern < Nat.pow 2 63) :
    (ofPattern negative pattern).isNegative = negative := by
  have hpower : Nat.pow 2 63 = 9223372036854775808 := rfl
  rw [hpower] at h
  rw [isNegative, ofPattern, hpower, UInt64.toNat_ofNat']
  cases negative <;> simp only [if_true, Bool.false_eq_true, if_false, decide_eq_true_eq,
    decide_eq_false_iff_not] <;> omega

/-- A number is its sign and its pattern. -/
theorem eq_of_pattern_eq {x y : Binary64} (hpattern : x.pattern = y.pattern)
    (hsign : x.isNegative = y.isNegative) : x = y := by
  have hpower : Nat.pow 2 63 = 9223372036854775808 := rfl
  have hx : x.bits.toNat < 18446744073709551616 := x.bits.toNat_lt
  have hy : y.bits.toNat < 18446744073709551616 := y.bits.toNat_lt
  rw [isNegative, isNegative, hpower, decide_eq_decide] at hsign
  rw [pattern, pattern, hpower] at hpattern
  have hbits : x.bits = y.bits := UInt64.toNat_inj.1 (by omega)
  cases x
  cases y
  exact congrArg mk hbits

/-! ### Rounding a quotient -/

/-- How a quotient is rounded depends on the quotient alone. -/
theorem roundDiv_mul_right (num den : Nat) {k : Nat} (hk : 0 < k) :
    roundDiv (num * k) (den * k) = roundDiv num den := by
  have hquotient : num * k / (den * k) = num / den := Nat.mul_div_mul_right num den hk
  have hrest : num * k % (den * k) = num % den * k := Nat.mul_mod_mul_right k num den
  have hless : ∀ a b : Nat, a * k < b * k ↔ a < b := fun a b => Nat.mul_lt_mul_right hk
  simp only [roundDiv, hquotient, hrest, ← Nat.mul_assoc, hless]

theorem roundDiv_mul_self (quotient : Nat) {den : Nat} (h : 0 < den) :
    roundDiv (quotient * den) den = quotient := by
  rw [roundDiv, Nat.mul_div_cancel quotient h, Nat.mul_mod_left]
  exact if_pos h

/-- Rounding moves no quotient across a natural number. -/
theorem le_roundDiv {num den bound : Nat} (hden : 0 < den) (h : bound * den ≤ num) :
    bound ≤ roundDiv num den := by
  have hquotient : bound ≤ num / den := (Nat.le_div_iff_mul_le hden).2 h
  rw [roundDiv]
  split
  · exact hquotient
  · split <;> omega

theorem roundDiv_le {num den bound : Nat} (hden : 0 < den) (h : num ≤ bound * den) :
    roundDiv num den ≤ bound := by
  rcases Nat.eq_or_lt_of_le h with rfl | hlt
  · exact Nat.le_of_eq (roundDiv_mul_self bound hden)
  · have hquotient : num / den < bound := (Nat.div_lt_iff_lt_mul hden).2 hlt
    rw [roundDiv]
    split
    · exact Nat.le_of_lt hquotient
    · split <;> omega

theorem roundDiv_le_succ (num den : Nat) : roundDiv num den ≤ num / den + 1 := by
  rw [roundDiv]
  split
  · exact Nat.le_succ _
  · split <;> omega

/-! ### Patterns and magnitudes -/

/-- The pattern of a mantissa under a gap. A mantissa that is too great by one is carried into the
next gap, where it stands for the same magnitude. -/
theorem unitsOf_mantissa {gap mantissa : Nat} (h : gap = 0 ∨ fractionSize ≤ mantissa)
    (hle : mantissa ≤ 2 * fractionSize) :
    unitsOf (gap * fractionSize + mantissa) = mantissa * Nat.pow 2 gap := by
  rcases Nat.lt_or_ge mantissa fractionSize with hsmall | hlarge
  · obtain rfl : gap = 0 := h.resolve_right (Nat.not_le.2 hsmall)
    rw [Nat.zero_mul, Nat.zero_add, unitsOf, if_pos hsmall]
    exact (Nat.mul_one mantissa).symm
  obtain ⟨fraction, rfl⟩ := Nat.exists_eq_add_of_le hlarge
  have hnormal : ¬gap * fractionSize + (fractionSize + fraction) < fractionSize := by omega
  have hsum : gap * fractionSize + (fractionSize + fraction) =
      fraction + (gap + 1) * fractionSize := by
    rw [Nat.add_mul, Nat.one_mul]
    omega
  rw [unitsOf, if_neg hnormal, hsum, Nat.add_mul_mod_self_right,
    Nat.add_mul_div_right _ _ fractionSize_pos]
  rcases Nat.lt_or_ge fraction fractionSize with hfraction | hcarry
  · rw [Nat.mod_eq_of_lt hfraction, Nat.div_eq_of_lt hfraction, Nat.zero_add, Nat.add_sub_cancel]
  · obtain rfl : fraction = fractionSize := by omega
    rw [Nat.mod_self, Nat.div_self fractionSize_pos, Nat.add_zero, Nat.add_comm 1,
      Nat.add_sub_cancel, ← Nat.two_mul, Nat.mul_comm 2, Nat.mul_assoc]
    exact congrArg (fractionSize * ·) Nat.pow_succ'

/-- Every pattern is a mantissa under a gap. -/
theorem exists_mantissa (pattern : Nat) : ∃ gap mantissa,
    pattern = gap * fractionSize + mantissa ∧ (gap = 0 ∨ fractionSize ≤ mantissa) ∧
      mantissa < 2 * fractionSize := by
  rcases Nat.lt_or_ge pattern fractionSize with hsmall | hlarge
  · exact ⟨0, pattern, by rw [Nat.zero_mul, Nat.zero_add], .inl rfl, by omega⟩
  · have hdiv := Nat.div_add_mod' pattern fractionSize
    have hmod := Nat.mod_lt pattern fractionSize_pos
    obtain ⟨gap, hgap⟩ := Nat.exists_eq_succ_of_ne_zero
      (Nat.ne_of_gt (Nat.div_pos hlarge fractionSize_pos))
    rw [hgap, Nat.succ_mul] at hdiv
    exact ⟨gap, fractionSize + pattern % fractionSize, by omega, .inr (Nat.le_add_right _ _),
      by omega⟩

theorem unitsOf_eq_zero {pattern : Nat} : unitsOf pattern = 0 ↔ pattern = 0 := by
  rw [unitsOf]
  split
  · rfl
  · rename_i hlarge
    have hmantissa : fractionSize + pattern % fractionSize ≠ 0 :=
      Nat.ne_of_gt (Nat.add_pos_left fractionSize_pos _)
    have hpattern : pattern ≠ 0 := by
      rintro rfl
      exact hlarge fractionSize_pos
    exact iff_of_false (Nat.mul_ne_zero hmantissa (Nat.ne_of_gt (Nat.two_pow_pos _))) hpattern

/-- The size of a shifted number. -/
theorem log2_mul_pow {n size : Nat} (h : Nat.pow 2 size ≤ n) (hlt : n < 2 * Nat.pow 2 size)
    (shift : Nat) : (n * Nat.pow 2 shift).log2 = size + shift := by
  have hpower : ∀ k, Nat.pow 2 k = 2 ^ k := fun _ => rfl
  have hshift : 0 < 2 ^ shift := Nat.two_pow_pos shift
  have hn : 0 < n := Nat.lt_of_lt_of_le (Nat.two_pow_pos size) h
  simp only [hpower] at h hlt ⊢
  rw [Nat.log2_eq_iff (Nat.ne_of_gt (Nat.mul_pos hn hshift))]
  constructor
  · rw [Nat.pow_add]
    exact Nat.mul_le_mul_right _ h
  · rw [Nat.add_right_comm, Nat.pow_add, Nat.pow_succ']
    exact Nat.mul_lt_mul_of_pos_right hlt hshift

/-- A magnitude that a pattern stands for is rounded to that pattern. -/
theorem patternOfRatio_unitsOf {pattern : Nat} (h : pattern ≤ infinitePattern) :
    patternOfRatio (unitsOf pattern) 1 = pattern := by
  obtain ⟨gap, mantissa, rfl, hgap, hlt⟩ := exists_mantissa pattern
  have hlog : (mantissa * Nat.pow 2 gap).log2 - 52 = gap := by
    rcases Nat.lt_or_ge mantissa fractionSize with hsmall | hlarge
    · obtain rfl : gap = 0 := hgap.resolve_right (Nat.not_le.2 hsmall)
      have hone : mantissa * Nat.pow 2 0 = mantissa := Nat.mul_one mantissa
      rcases Nat.eq_zero_or_pos mantissa with rfl | hpos
      · rfl
      · have hlog : mantissa.log2 < 52 := (Nat.log2_lt (Nat.ne_of_gt hpos)).2 hsmall
        rw [hone]
        omega
    · rw [log2_mul_pow hlarge hlt, Nat.add_sub_cancel_left]
  have hround : roundDiv (mantissa * Nat.pow 2 gap) (Nat.pow 2 gap) = mantissa :=
    roundDiv_mul_self mantissa (Nat.two_pow_pos gap)
  rw [unitsOf_mantissa hgap (Nat.le_of_lt hlt), patternOfRatio, Nat.div_one, hlog, Nat.one_mul,
    hround]
  exact Nat.min_eq_left h

/-- Rounding moves no quotient beyond a magnitude that has a pattern. -/
theorem patternOfRatio_le {num den pattern : Nat} (hden : 0 < den)
    (h : num ≤ unitsOf pattern * den) : patternOfRatio num den ≤ pattern := by
  have hpower : ∀ k, Nat.pow 2 k = 2 ^ k := fun _ => rfl
  obtain ⟨gap, mantissa, rfl, hgap, hlt⟩ := exists_mantissa pattern
  rw [unitsOf_mantissa hgap (Nat.le_of_lt hlt)] at h
  have hquotient : num / den ≤ mantissa * Nat.pow 2 gap :=
    Nat.div_le_of_le_mul (by rwa [Nat.mul_comm])
  -- the gap of the quotient is at most that of the pattern
  have hsize : mantissa * Nat.pow 2 gap < 2 ^ (53 + gap) := by
    rw [Nat.pow_add]
    exact Nat.mul_lt_mul_of_pos_right hlt (Nat.two_pow_pos gap)
  have hlog : (num / den).log2 - 52 ≤ gap := by
    rcases Nat.eq_zero_or_pos (num / den) with hzero | hpos
    · rw [hzero]
      exact Nat.zero_le gap
    · have hlt := (Nat.log2_lt (Nat.ne_of_gt hpos)).2 (Nat.lt_of_le_of_lt hquotient hsize)
      omega
  refine Nat.le_trans (Nat.min_le_left _ _) ?_
  rcases Nat.eq_or_lt_of_le hlog with heq | hless
  · rw [heq]
    refine Nat.add_le_add_left (roundDiv_le (Nat.mul_pos hden (Nat.two_pow_pos gap)) ?_) _
    rwa [Nat.mul_comm den, ← Nat.mul_assoc]
  · -- a lower gap is left by no more than the greatest mantissa
    have hlarge : fractionSize ≤ mantissa := hgap.resolve_left (by omega)
    generalize hg : (num / den).log2 - 52 = below at hless
    have hround : roundDiv num (den * Nat.pow 2 below) ≤ 2 * fractionSize := by
      refine roundDiv_le (Nat.mul_pos hden (Nat.two_pow_pos below)) ?_
      have hnum : num / den < 2 ^ (53 + below) := by
        rcases Nat.eq_zero_or_pos (num / den) with hzero | hpos
        · rw [hzero]
          exact Nat.two_pow_pos _
        · refine (Nat.log2_lt (Nat.ne_of_gt hpos)).1 ?_
          omega
      have hle := Nat.le_of_lt ((Nat.div_lt_iff_lt_mul hden).1 hnum)
      have hsplit : 2 * fractionSize * (den * Nat.pow 2 below) = 2 ^ (53 + below) * den := by
        rw [Nat.pow_add, Nat.mul_comm den, ← Nat.mul_assoc]
        rfl
      rwa [hsplit]
    have hgaps : below * fractionSize + fractionSize ≤ gap * fractionSize := by
      rw [← Nat.succ_mul]
      exact Nat.mul_le_mul_right _ hless
    omega

/-- Magnitudes up to the one of the greatest finite pattern are rounded to finite numbers. -/
theorem patternOfRatio_lt {num den gap : Nat} (hgap : gap = 2045) (hden : 0 < den)
    (h : num ≤ (2 * fractionSize - 1) * Nat.pow 2 gap * den) :
    patternOfRatio num den < infinitePattern := by
  have hpos := fractionSize_pos
  have hgreatest : unitsOf (gap * fractionSize + (2 * fractionSize - 1)) =
      (2 * fractionSize - 1) * Nat.pow 2 gap :=
    unitsOf_mantissa (.inr (by omega)) (by omega)
  have hle := patternOfRatio_le hden (hgreatest ▸ h)
  rw [hgap] at hle
  rw [infinitePattern]
  omega

/-- What a natural number is rounded to is greater by no more than one part in `2 ^ 52`. -/
theorem unitsOf_patternOfRatio_le {n : Nat} (h : patternOfRatio n 1 < infinitePattern) :
    fractionSize * unitsOf (patternOfRatio n 1) ≤ (fractionSize + 1) * n := by
  have hpower : ∀ k, Nat.pow 2 k = 2 ^ k := fun _ => rfl
  obtain ⟨gap, hgap⟩ : ∃ gap, gap = n.log2 - 52 := ⟨_, rfl⟩
  have hpattern : patternOfRatio n 1 = gap * fractionSize + roundDiv n (2 ^ gap) := by
    rw [patternOfRatio, Nat.div_one, Nat.one_mul, hpower, ← hgap] at h ⊢
    omega
  have hlt : n < 2 ^ (53 + gap) := by
    refine Nat.lt_of_lt_of_le Nat.lt_log2_self (Nat.pow_le_pow_right Nat.two_pos ?_)
    omega
  have hround : roundDiv n (2 ^ gap) ≤ 2 * fractionSize := by
    refine roundDiv_le (Nat.two_pow_pos gap) (Nat.le_trans (Nat.le_of_lt hlt) ?_)
    rw [Nat.pow_add]
    exact Nat.le_refl _
  rw [hpattern]
  rcases Nat.eq_zero_or_pos gap with hzero | hpos
  · -- nothing is lost
    have hself : roundDiv n (2 ^ gap) = n := by
      have hone := roundDiv_mul_self n Nat.one_pos
      rwa [Nat.mul_one, ← Nat.pow_zero 2, ← hzero] at hone
    rw [unitsOf_mantissa (.inl hzero) hround, hself, hzero, hpower, Nat.pow_zero, Nat.mul_one]
    exact Nat.mul_le_mul_right n (Nat.le_succ fractionSize)
  · have hne : n ≠ 0 := by
      rintro rfl
      exact absurd hgap (Nat.ne_of_gt hpos)
    have hge : fractionSize * 2 ^ gap ≤ n := by
      have hlog : n.log2 = 52 + gap := by omega
      have hself := Nat.log2_self_le hne
      rwa [hlog, Nat.pow_add] at hself
    have hquotient : n / 2 ^ gap * 2 ^ gap ≤ n := Nat.div_mul_le_self n _
    have hunits : roundDiv n (2 ^ gap) * 2 ^ gap ≤ n + 2 ^ gap := by
      have hmul := Nat.mul_le_mul_right (2 ^ gap) (roundDiv_le_succ n (2 ^ gap))
      rw [Nat.add_mul, Nat.one_mul] at hmul
      omega
    rw [unitsOf_mantissa (.inr (le_roundDiv (Nat.two_pow_pos gap) hge)) hround, hpower]
    calc fractionSize * (roundDiv n (2 ^ gap) * 2 ^ gap)
        ≤ fractionSize * (n + 2 ^ gap) := Nat.mul_le_mul_left _ hunits
      _ = fractionSize * n + fractionSize * 2 ^ gap := Nat.mul_add ..
      _ ≤ fractionSize * n + n := Nat.add_le_add_left hge _
      _ = (fractionSize + 1) * n := by rw [Nat.add_mul, Nat.one_mul]

/-- A natural number of no more digits than a mantissa has is a magnitude with a pattern. -/
theorem exists_unitsOf_eq {n : Nat} (h : n ≤ 2 * fractionSize) :
    ∃ pattern < infinitePattern, unitsOf pattern = n * unitsPerOne := by
  obtain ⟨k, hk, hscale⟩ := exists_unitsPerOne_eq_pow
  have hsize : fractionSize = 2 ^ 52 := rfl
  rw [hscale]
  rcases Nat.eq_zero_or_pos n with rfl | hpos
  · exact ⟨0, by decide, by rw [unitsOf, if_pos fractionSize_pos, Nat.zero_mul]⟩
  have hne : n ≠ 0 := Nat.ne_of_gt hpos
  -- the number is shifted until it has all the digits of a mantissa
  have hshift : 2 ^ n.log2 * 2 ^ (52 - n.log2) = 2 ^ (n.log2 + (52 - n.log2)) :=
    (Nat.pow_add 2 _ _).symm
  have hge : fractionSize ≤ n * 2 ^ (52 - n.log2) := by
    refine Nat.le_trans ?_ (Nat.mul_le_mul_right _ (Nat.log2_self_le hne))
    rw [hshift, hsize]
    exact Nat.pow_le_pow_right Nat.two_pos (by omega)
  have hle : n * 2 ^ (52 - n.log2) ≤ 2 * fractionSize := by
    rcases Nat.lt_or_ge n.log2 53 with hlog | hlog
    · refine Nat.le_trans (Nat.mul_le_mul_right _ (Nat.le_of_lt Nat.lt_log2_self)) ?_
      rw [← Nat.pow_add, hsize, ← Nat.pow_succ']
      exact Nat.pow_le_pow_right Nat.two_pos (by omega)
    · have hzero : 52 - n.log2 = 0 := by omega
      rwa [hzero, Nat.pow_zero, Nat.mul_one]
  refine ⟨(k - (52 - n.log2)) * fractionSize + n * 2 ^ (52 - n.log2), ?_, ?_⟩
  · have hgap : (k - (52 - n.log2)) * fractionSize ≤ k * fractionSize :=
      Nat.mul_le_mul_right _ (Nat.sub_le _ _)
    have hinfinite : infinitePattern = 2047 * fractionSize := rfl
    have hpositive := fractionSize_pos
    rw [hk] at hgap ⊢
    omega
  · have hpower : Nat.pow 2 k = 2 ^ (52 - n.log2) * 2 ^ (k - (52 - n.log2)) := by
      have hsum : k = 52 - n.log2 + (k - (52 - n.log2)) := by omega
      rw [← Nat.pow_add]
      exact congrArg (2 ^ ·) hsum
    rw [unitsOf_mantissa (.inr hge) hle, hpower, ← Nat.mul_assoc]
    rfl

/-! ### Integers -/

section Long

-- how many binary digits the integer has beyond the 53 of a mantissa
variable {n : Int} (excess : Nat)

/-- The mantissa of a long integer has all its 53 digits, unless it is carried into the next one. -/
theorem roundDiv_long (h : Nat.pow 2 (52 + excess) ≤ n.natAbs)
    (hlt : n.natAbs < 2 * Nat.pow 2 (52 + excess)) :
    fractionSize ≤ roundDiv n.natAbs (Nat.pow 2 excess) ∧
      roundDiv n.natAbs (Nat.pow 2 excess) ≤ 2 * fractionSize := by
  have hpower : Nat.pow 2 (52 + excess) = fractionSize * Nat.pow 2 excess :=
    Nat.pow_add 2 52 excess
  rw [hpower] at h hlt
  rw [← Nat.mul_assoc] at hlt
  exact ⟨le_roundDiv (Nat.two_pow_pos excess) h,
    roundDiv_le (Nat.two_pow_pos excess) (Nat.le_of_lt hlt)⟩

theorem pattern_long_lt (hexcess : excess ≤ 64) (h : Nat.pow 2 (52 + excess) ≤ n.natAbs)
    (hlt : n.natAbs < 2 * Nat.pow 2 (52 + excess)) :
    (1074 + excess) * fractionSize + roundDiv n.natAbs (Nat.pow 2 excess) < infinitePattern := by
  have hpos := fractionSize_pos
  have hle := (roundDiv_long excess h hlt).2
  have hgap : (1074 + excess) * fractionSize ≤ (1074 + 64) * fractionSize :=
    Nat.mul_le_mul_right _ (Nat.add_le_add_left hexcess 1074)
  rw [infinitePattern]
  omega

/-- That mantissa is under the gap that the length of the integer gives. -/
theorem ofInt_long (hexcess : excess ≤ 64) (h : Nat.pow 2 (52 + excess) ≤ n.natAbs)
    (hlt : n.natAbs < 2 * Nat.pow 2 (52 + excess)) :
    ofInt n = ofPattern (decide (n < 0))
      ((1074 + excess) * fractionSize + roundDiv n.natAbs (Nat.pow 2 excess)) := by
  obtain ⟨k, hk, hscale⟩ := exists_unitsPerOne_eq_pow
  have hgap : (n.natAbs * Nat.pow 2 k / 1).log2 - 52 = k + excess := by
    have hlog := log2_mul_pow h hlt k
    rw [Nat.div_one, hlog]
    omega
  have hround : roundDiv (n.natAbs * Nat.pow 2 k) (1 * Nat.pow 2 (k + excess)) =
      roundDiv n.natAbs (Nat.pow 2 excess) := by
    have hpower : Nat.pow 2 (k + excess) = Nat.pow 2 excess * Nat.pow 2 k := by
      rw [Nat.add_comm]
      exact Nat.pow_add 2 excess k
    rw [Nat.one_mul, hpower]
    exact roundDiv_mul_right _ _ (Nat.two_pow_pos k)
  rw [ofInt, ofRatio, hscale, patternOfRatio, hgap, hround, hk]
  exact congrArg _ (Nat.min_eq_left (Nat.le_of_lt (pattern_long_lt excess hexcess h hlt)))

/-- So the number that a long integer is rounded to denotes an integer again. -/
theorem signedUnits_ofInt_long (hexcess : excess ≤ 64) (h : Nat.pow 2 (52 + excess) ≤ n.natAbs)
    (hlt : n.natAbs < 2 * Nat.pow 2 (52 + excess)) :
    (ofInt n).signedUnits =
      n.sign * (roundDiv n.natAbs (Nat.pow 2 excess) * Nat.pow 2 excess : Nat) * unitsPerOne := by
  obtain ⟨k, hk, hscale⟩ := exists_unitsPerOne_eq_pow
  have hpattern := Nat.lt_trans (pattern_long_lt excess hexcess h hlt) infinitePattern_lt
  have hunits : unitsOf ((1074 + excess) * fractionSize + roundDiv n.natAbs (Nat.pow 2 excess)) =
      roundDiv n.natAbs (Nat.pow 2 excess) * Nat.pow 2 excess * unitsPerOne := by
    obtain ⟨hge, hle⟩ := roundDiv_long excess h hlt
    have hpower : Nat.pow 2 (1074 + excess) = Nat.pow 2 excess * Nat.pow 2 k := by
      rw [← hk, Nat.add_comm]
      exact Nat.pow_add 2 excess k
    rw [unitsOf_mantissa (.inr hge) hle, hpower, hscale, Nat.mul_assoc]
  rw [ofInt_long excess hexcess h hlt, signedUnits, isNegative_ofPattern _ hpattern, units,
    pattern_ofPattern _ hpattern, hunits, Int.natCast_mul]
  have hzero : n ≠ 0 := Int.natAbs_pos.1 (Nat.lt_of_lt_of_le (Nat.two_pow_pos _) h)
  rcases Int.lt_or_gt_of_ne hzero with hneg | hpos
  · rw [decide_eq_true hneg, if_pos rfl, Int.sign_eq_neg_one_of_neg hneg, Int.neg_mul, Int.one_mul,
      Int.neg_mul]
  · rw [decide_eq_false (Int.lt_asymm hpos), if_neg Bool.false_ne_true,
      Int.sign_eq_one_of_pos hpos, Int.one_mul]

end Long

theorem isFinite_iff {x : Binary64} : x.isFinite = true ↔ x.pattern < infinitePattern :=
  decide_eq_true_iff

theorem isNaN_of_isFinite {x : Binary64} (h : x.isFinite = true) : x.isNaN = false :=
  decide_eq_false (Nat.not_lt.2 (Nat.le_of_lt (isFinite_iff.1 h)))

theorem isFinite_ofPattern (negative : Bool) {pattern : Nat} (h : pattern < infinitePattern) :
    (ofPattern negative pattern).isFinite = true := by
  rw [isFinite_iff, pattern_ofPattern negative (Nat.lt_trans h infinitePattern_lt)]
  exact h

/-- The greatest finite number is greater than a one with 308 zeros by half of that and more. -/
theorem pow_ten_le {k l : Nat} (hk : k = 308) (hl : l = 971) :
    3 * 10 ^ k ≤ 2 * ((2 * fractionSize - 1) * Nat.pow 2 l) := by
  have hten : 10 ^ k = (10 ^ 154) ^ 2 := by rw [hk, ← Nat.pow_mul]
  have htwo : ∀ m, l = m * 4 + 3 → Nat.pow 2 l = (2 ^ m) ^ 4 * 2 ^ 3 := fun m hm => by
    rw [← Nat.pow_mul, ← Nat.pow_add, hm]
    rfl
  have hsize : fractionSize = 2 ^ 52 := rfl
  rw [hten, htwo 242 hl, hsize]
  norm_num

/-- Magnitudes up to half as much again as a one with 308 zeros are rounded to finite numbers. -/
theorem patternOfRatio_lt_of_le {num den k : Nat} (hk : k = 308) (hden : 0 < den)
    (h : 2 * num ≤ 3 * 10 ^ k * unitsPerOne * den) : patternOfRatio num den < infinitePattern := by
  obtain ⟨l, hl⟩ : ∃ l, l = 971 := ⟨_, rfl⟩
  obtain ⟨m, hm, hscale⟩ := exists_unitsPerOne_eq_pow
  have hpower : Nat.pow 2 (l + m) = Nat.pow 2 l * unitsPerOne := by
    rw [hscale]
    exact Nat.pow_add 2 l m
  refine patternOfRatio_lt (by omega : l + m = 2045) hden ?_
  have hbound := Nat.mul_le_mul_right den (Nat.mul_le_mul_right unitsPerOne (pow_ten_le hk hl))
  have hdouble := Nat.le_trans h hbound
  rw [Nat.mul_assoc 2, Nat.mul_assoc 2] at hdouble
  rw [hpower, ← Nat.mul_assoc]
  exact Nat.le_of_mul_le_mul_left hdouble Nat.two_pos

theorem isFinite_ofRatio_one (negative : Bool) {n k : Nat} (hk : k = 308) (h : n ≤ 10 ^ k) :
    (ofRatio negative n 1).isFinite = true := by
  refine isFinite_ofPattern negative (patternOfRatio_lt_of_le hk Nat.one_pos ?_)
  rw [Nat.mul_one, ← Nat.mul_assoc]
  exact Nat.mul_le_mul_right _ (by omega)

/-- The units of a rounded natural number, which is greater by one part in `2 ^ 52` at most. -/
theorem units_ofInt_le {n k : Nat} (hk : k = 308) (h : n ≤ 10 ^ k) :
    fractionSize * (ofInt n).units ≤ (fractionSize + 1) * (n * unitsPerOne) := by
  have hlt : patternOfRatio (n * unitsPerOne) 1 < infinitePattern := by
    refine patternOfRatio_lt_of_le hk Nat.one_pos ?_
    rw [Nat.mul_one, ← Nat.mul_assoc]
    exact Nat.mul_le_mul_right _ (by omega)
  rw [units, ofInt, ofRatio, Int.natAbs_natCast,
    pattern_ofPattern _ (Nat.lt_trans hlt infinitePattern_lt)]
  exact unitsOf_patternOfRatio_le hlt

/-- The product of two rounded natural numbers is finite if their own is not too large. -/
theorem isFinite_mul {a b k : Nat} (hk : k = 308) (ha : 0 < a) (hb : 0 < b) (h : a * b ≤ 10 ^ k) :
    ((ofInt a).mul (ofInt b)).isFinite = true := by
  have hfirst := units_ofInt_le hk (Nat.le_trans (Nat.le_mul_of_pos_right a hb) h)
  have hsecond := units_ofInt_le hk (Nat.le_trans (Nat.le_mul_of_pos_left b ha) h)
  refine isFinite_ofPattern _ (patternOfRatio_lt_of_le hk unitsPerOne_pos ?_)
  have hsquare :
      2 * ((fractionSize + 1) * (fractionSize + 1)) ≤ 3 * (fractionSize * fractionSize) := by
    decide
  have hpos : 0 < fractionSize * fractionSize := Nat.mul_pos fractionSize_pos fractionSize_pos
  refine Nat.le_of_mul_le_mul_left ?_ hpos
  calc fractionSize * fractionSize * (2 * ((ofInt a).units * (ofInt b).units))
      = 2 * (fractionSize * (ofInt a).units * (fractionSize * (ofInt b).units)) := by ring
    _ ≤ 2 * ((fractionSize + 1) * (a * unitsPerOne) * ((fractionSize + 1) * (b * unitsPerOne))) :=
      Nat.mul_le_mul_left 2 (Nat.mul_le_mul hfirst hsecond)
    _ = 2 * ((fractionSize + 1) * (fractionSize + 1)) * (a * b * (unitsPerOne * unitsPerOne)) := by
      ring
    _ ≤ 3 * (fractionSize * fractionSize) * (10 ^ k * (unitsPerOne * unitsPerOne)) :=
      Nat.mul_le_mul hsquare (Nat.mul_le_mul_right _ h)
    _ = fractionSize * fractionSize * (3 * 10 ^ k * unitsPerOne * unitsPerOne) := by ring

theorem natAbs_signedUnits (x : Binary64) : x.signedUnits.natAbs = x.units := by
  rw [signedUnits]
  cases x.isNegative <;> simp

/-- Two finite numbers are equal if their magnitudes are and, unless these are zero, their signs. -/
theorem equals_of_pattern_eq {x y : Binary64} (hx : x.isFinite = true)
    (hpattern : x.pattern = y.pattern) (hsign : x.isNegative = y.isNegative ∨ x.pattern = 0) :
    x.equals y = true := by
  have hy : y.isFinite = true := by rwa [isFinite_iff, ← hpattern, ← isFinite_iff]
  rw [equals, isNaN_of_isFinite hx, isNaN_of_isFinite hy]
  simp [hpattern, hpattern ▸ hsign]

/-- An integer whose magnitude has a pattern is rounded to that pattern. -/
theorem ofInt_of_unitsOf {n : Int} {pattern : Nat} (h : pattern < infinitePattern)
    (hunits : unitsOf pattern = n.natAbs * unitsPerOne) :
    ofInt n = ofPattern (decide (n < 0)) pattern := by
  rw [ofInt, ofRatio, ← hunits, patternOfRatio_unitsOf (Nat.le_of_lt h)]

/-- It is the number that it is rounded to. -/
theorem signedUnits_ofInt {n : Int} {pattern : Nat} (h : pattern < infinitePattern)
    (hunits : unitsOf pattern = n.natAbs * unitsPerOne) :
    (ofInt n).signedUnits = n * unitsPerOne := by
  have hsmall := Nat.lt_trans h infinitePattern_lt
  rw [ofInt_of_unitsOf h hunits, signedUnits, isNegative_ofPattern _ hsmall, units,
    pattern_ofPattern _ hsmall, hunits, Int.natCast_mul]
  rcases Int.lt_or_le n 0 with hneg | hnonneg
  · have habs : (n.natAbs : Int) = -n := Int.ofNat_natAbs_of_nonpos (Int.le_of_lt hneg)
    rw [decide_eq_true hneg, if_pos rfl, habs, Int.neg_mul, Int.neg_neg]
  · rw [decide_eq_false (Int.not_lt.2 hnonneg), if_neg Bool.false_ne_true,
      Int.natAbs_of_nonneg hnonneg]

/-- An integer that a finite number stands for is rounded to a number equal to it. -/
theorem equals_ofInt {x : Binary64} {n : Int} (hfinite : x.isFinite = true)
    (h : x.signedUnits = n * unitsPerOne) : (ofInt n).equals x = true := by
  have hpattern := isFinite_iff.1 hfinite
  have hunits : unitsOf x.pattern = n.natAbs * unitsPerOne := by
    have habs := congrArg Int.natAbs h
    rw [natAbs_signedUnits, Int.natAbs_mul, Int.natAbs_natCast] at habs
    exact habs
  have hround := ofInt_of_unitsOf hpattern hunits
  have hsmall := Nat.lt_trans hpattern infinitePattern_lt
  rw [hround]
  refine equals_of_pattern_eq (isFinite_ofPattern _ hpattern) (pattern_ofPattern _ hsmall) ?_
  rw [isNegative_ofPattern _ hsmall, pattern_ofPattern _ hsmall]
  by_cases hzero : x.pattern = 0
  · exact .inr hzero
  have hpos : 0 < (x.units : Int) :=
    Int.natCast_pos.2 (Nat.pos_of_ne_zero (mt unitsOf_eq_zero.1 hzero))
  have hscale : 0 < (unitsPerOne : Int) := Int.natCast_pos.2 unitsPerOne_pos
  rw [signedUnits] at h
  cases hnegative : x.isNegative with
  | true =>
    rw [hnegative, if_pos rfl] at h
    have hproduct : n * unitsPerOne < 0 := h ▸ Int.neg_neg_of_pos hpos
    exact .inl (decide_eq_true (neg_of_mul_neg_left hproduct (Int.le_of_lt hscale)))
  | false =>
    rw [hnegative, if_neg Bool.false_ne_true] at h
    have hproduct : 0 < n * unitsPerOne := h ▸ hpos
    have hn : 0 < n := pos_of_mul_pos_left hproduct (Int.le_of_lt hscale)
    exact .inl (decide_eq_false (Int.not_lt.2 (Int.le_of_lt hn)))

end Binary64

end DocPath
