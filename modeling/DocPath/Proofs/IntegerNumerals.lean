import Mathlib
import DocPath.Json.Value
import DocPath.Proofs.JsonLexing
import DocPath.Proofs.Rounding
import DocPath.Yaml.Decode

/-!
# Integers in decimal

An integer in decimal is its digits, after a sign if it is negative. Both readers know it for what
it is by its size. One of 64 signed bits is kept as an integer, and what is larger is rounded, in
JSON after it was cut to as many digits as 64 bits hold (`Json.exists_number?_integer`); up to
`10 ^ 308` that is a finite number. YAML knows the integers of 128 bits as well, and refuses those
that 64 bits do not hold (`Yaml.Meaning.ofPlain_integer`).
-/

namespace DocPath

/-- What an integer is read as: itself if it is one of 64 signed bits, and else a finite number. -/
def Value.IsInteger (n : Int) : Value → Prop
  | .int m => m.toInt = n
  | .float x => x.isFinite = true ∧ ¬(-2 ^ 63 ≤ n ∧ n < 2 ^ 63)
  | _ => False

namespace Value

theorem isInteger_int {n : Int} (h : -2 ^ 63 ≤ n) (hlt : n < 2 ^ 63) :
    (Value.int (Int64.ofInt n)).IsInteger n :=
  Int64.toInt_ofInt_of_le h hlt

/-- A natural number of 64 bits is an integer if it fits, and rounded if not. -/
theorem isInteger_ofUInt64 {m : Nat} (h : m < 2 ^ 64) :
    (ofUInt64 (UInt64.ofNat m)).IsInteger m := by
  have hpower : Nat.pow 2 63 = 2 ^ 63 := rfl
  rw [ofUInt64, UInt64.toNat_ofNat_of_lt' h, hpower]
  split
  · rename_i hsmall
    exact Int64.toInt_ofNat_of_lt hsmall
  · obtain ⟨k, hk⟩ : ∃ k, k = 308 := ⟨_, rfl⟩
    have hbound : m ≤ 10 ^ k :=
      Nat.le_trans (by omega : m ≤ 10 ^ 20) (Nat.pow_le_pow_right (by decide) (by omega))
    exact ⟨Binary64.isFinite_ofRatio_one _ hk hbound, by omega⟩

end Value

/-! ### The characters -/

/-- The digits of an integer, after its sign. -/
theorem toList_toString (n : Int) : (toString n).toList =
    (if decide (n < 0) then ['-'] else []) ++ Nat.toDigits 10 n.natAbs := by
  rw [Int.toString_eq_repr, Int.repr_eq_if]
  rcases Int.lt_or_le n 0 with hneg | hnonneg
  · have habs : (-n).toNat = n.natAbs := by omega
    rw [if_neg (Int.not_le.2 hneg), decide_eq_true hneg, habs, String.toList_append,
      Nat.toList_repr]
    rfl
  · have habs : n.toNat = n.natAbs := by omega
    rw [if_pos hnonneg, decide_eq_false (Int.not_lt.2 hnonneg), habs, Nat.toList_repr]
    rfl

/-! ### JSON -/

namespace Json

/-- With zeros for the digits that it leaves out, the significand is at most the number. -/
theorem extend_le {digits : List Char} (h : ∀ c ∈ digits, c.isDigit = true) (start : Nat) :
    (extend start digits).1 * 10 ^ (extend start digits).2 ≤ Nat.ofDigitChars 10 digits start := by
  induction digits generalizing start with
  | nil => exact Nat.le_of_eq (Nat.mul_one start)
  | cons d rest ih =>
    rw [extend]
    split
    · rw [Nat.ofDigitChars_cons, Nat.mul_comm 10,
        ← Numeral.digitValue_of_isDigit (h d List.mem_cons_self)]
      exact ih (fun c mem => h c (List.mem_cons_of_mem _ mem)) _
    · rw [Nat.ofDigitChars_eq_ofDigitChars_zero, Nat.mul_comm]
      exact Nat.le_add_right _ _

/-- No digit is left out only if the number fits 64 bits. -/
theorem lt_of_extend {digits : List Char} (h : ∀ c ∈ digits, c.isDigit = true) {start : Nat}
    (hstart : start < Nat.pow 2 64) (hall : (extend start digits).2 = 0) :
    Nat.ofDigitChars 10 digits start < Nat.pow 2 64 := by
  induction digits generalizing start with
  | nil => exact hstart
  | cons d rest ih =>
    rw [extend] at hall
    split at hall
    · rename_i hnext
      rw [Nat.ofDigitChars_cons, Nat.mul_comm 10,
        ← Numeral.digitValue_of_isDigit (h d List.mem_cons_self)]
      exact ih (fun c mem => h c (List.mem_cons_of_mem _ mem)) hnext hall
    · cases hall

/-- A significand and places that come to no more than `10 ^ 308` make a finite number. -/
theorem exists_scale? {significand places k : Nat} (hk : k = 308)
    (h : significand * 10 ^ places ≤ 10 ^ k) :
    ∃ x, scale? significand places = some x ∧ x.isFinite = true := by
  rw [scale?]
  by_cases hzero : significand = 0
  · exact ⟨_, if_pos hzero, Binary64.isFinite_ofPattern _ (by decide)⟩
  have hpos := Nat.pos_of_ne_zero hzero
  have hplaces : places ≤ k :=
    (Nat.pow_le_pow_iff_right (by decide)).1 (Nat.le_trans (Nat.le_mul_of_pos_left _ hpos) h)
  have hfinite := Binary64.isFinite_mul hk hpos (Nat.pow_pos (by decide)) h
  refine ⟨(Binary64.ofInt significand).mul (powerOfTen places), ?_, hfinite⟩
  rw [if_neg hzero, if_neg (by omega), if_pos (Int.natCast_nonneg _)]
  exact if_pos hfinite

theorem isFinite_neg {x : Binary64} (h : x.isFinite = true) : x.neg.isFinite = true :=
  Binary64.isFinite_ofPattern _ (Binary64.isFinite_iff.1 h)

/-- An integer that is kept as one is that integer. -/
theorem isInteger_of_integer? {n : Int} {a : Atom}
    (h : integer? (decide (n < 0)) n.natAbs = some a) : a.toValue.IsInteger n := by
  have hpower : Nat.pow 2 63 = 2 ^ 63 := rfl
  rw [integer?] at h
  rcases Int.lt_or_le n 0 with hneg | hnonneg
  · have habs : -(n.natAbs : Int) = n := by omega
    rw [decide_eq_true hneg, if_pos rfl, habs, Option.ite_none_right_eq_some,
      Option.some.injEq] at h
    obtain ⟨hsize, rfl⟩ := h
    exact Value.isInteger_int (by omega) (by omega)
  · rw [decide_eq_false (Int.not_lt.2 hnonneg), if_neg Bool.false_ne_true,
      Option.ite_none_right_eq_some, Option.some.injEq] at h
    obtain ⟨hsize, rfl⟩ := h
    have hread := Value.isInteger_ofUInt64 hsize
    rwa [Int.natAbs_of_nonneg hnonneg] at hread

/-- One that is not is none of 64 signed bits. -/
theorem not_int64_of_integer? {n : Int} (h : integer? (decide (n < 0)) n.natAbs = none) :
    ¬(-2 ^ 63 ≤ n ∧ n < 2 ^ 63) := by
  have hsigned : Nat.pow 2 63 = 2 ^ 63 := rfl
  have hpower : Nat.pow 2 64 = 2 ^ 64 := rfl
  rw [integer?] at h
  rcases Int.lt_or_le n 0 with hneg | hnonneg
  · rw [decide_eq_true hneg, if_pos rfl, ite_eq_right_iff] at h
    have hsize : ¬(0 < n.natAbs ∧ n.natAbs ≤ Nat.pow 2 63) := fun hsize => by cases h hsize
    omega
  · rw [decide_eq_false (Int.not_lt.2 hnonneg), if_neg Bool.false_ne_true, ite_eq_right_iff] at h
    have hsize : ¬n.natAbs < Nat.pow 2 64 := fun hsize => by cases h hsize
    omega

/-- An integer in decimal is read, and as what it is. -/
theorem exists_number?_integer {n : Int} {k : Nat} (hk : k = 308) (h : n.natAbs ≤ 10 ^ k) :
    ∃ a, number? (decide (n < 0)) (Nat.toDigits 10 n.natAbs) [] none = some a ∧
      a.toValue.IsInteger n := by
  cases hinteger : integer? (decide (n < 0)) n.natAbs with
  | some a => exact ⟨a, number?_toDigits hinteger, isInteger_of_integer? hinteger⟩
  | none =>
    have hdigits : ∀ c ∈ Nat.toDigits 10 n.natAbs, c.isDigit = true :=
      fun c => isDigit_of_mem_toDigits
    have hvalue : Nat.ofDigitChars 10 (Nat.toDigits 10 n.natAbs) 0 = n.natAbs :=
      Nat.ofDigitChars_ten_toDigits
    have hextend := extend_le hdigits 0
    have hfits := lt_of_extend hdigits (Nat.two_pow_pos 64)
    rw [hvalue] at hextend hfits
    rcases hcut : extend 0 (Nat.toDigits 10 n.natAbs) with ⟨significand, places⟩
    rw [hcut] at hextend hfits
    obtain ⟨x, hscale, hfinite⟩ := exists_scale? hk (Nat.le_trans hextend h)
    -- no integer is kept: either digits are left out, or the sign does not allow it
    have hkept : places = 0 → integer? (decide (n < 0)) significand = none := fun hall => by
      have hwhole := extend_of_lt hdigits (hvalue.symm ▸ hfits hall)
      rw [hcut, hvalue] at hwhole
      rw [(Prod.mk.inj hwhole).1, hinteger]
    have hnone : (if ([] : List Char).isEmpty = true ∧ (none : Option Int).isNone = true ∧
        places = 0 then integer? (decide (n < 0)) significand else none) = none := by
      split
      · rename_i hall
        exact hkept hall.2.2
      · rfl
    refine ⟨.float (if decide (n < 0) then x.neg else x), ?_, ?_, not_int64_of_integer? hinteger⟩
    · rw [number?, hcut]
      dsimp only
      rw [hnone, extend]
      simp [hscale]
    · cases decide (n < 0) with
      | true => exact isFinite_neg hfinite
      | false => exact hfinite

end Json

/-! ### YAML -/

/-- The characters of an integer are digits, and a sign. -/
theorem numeric_toString (n : Int) : (toString n).toList.all (fun c => c == '-' || c.isDigit) := by
  rw [toList_toString, List.all_append, Bool.and_eq_true, List.all_eq_true, List.all_eq_true]
  refine ⟨fun c mem => ?_, fun c mem => ?_⟩
  · split at mem
    · rw [List.mem_singleton.1 mem]
      rfl
    · cases mem
  · rw [Json.isDigit_of_mem_toDigits mem, Bool.or_true]

theorem splitSign_toString (n : Int) : Numeral.splitSign (toString n).toList =
    (decide (n < 0), Nat.toDigits 10 n.natAbs) := by
  obtain ⟨d, rest, hd, hdigit⟩ := Json.exists_digit n.natAbs
  rw [toList_toString]
  cases decide (n < 0) with
  | true => rfl
  | false =>
    rw [if_neg Bool.false_ne_true, List.nil_append, hd, Numeral.splitSign]
    · rintro more ⟨⟩
      cases hdigit
    · rintro more ⟨⟩
      cases hdigit

namespace Yaml.Meaning

theorem isPadded_toString (n : Int) : isPadded (toString n).toList = false := by
  rw [isPadded, splitSign_toString]
  dsimp only
  by_cases hzero : n.natAbs = 0
  · rw [hzero]
    rfl
  · obtain ⟨d, rest, hd, hne⟩ := Json.exists_toDigits hzero
    rw [hd]
    split
    · rename_i heq
      exact absurd (List.cons.inj heq).1 hne
    · rfl

/-- There is no letter for a base between decimal digits. -/
theorem natural?_toDigits (m : Nat) : natural? (Nat.toDigits 10 m) = some m := by
  have hdigits : ∀ c ∈ Nat.toDigits 10 m, c.isDigit = true :=
    fun c => Json.isDigit_of_mem_toDigits
  have hbase (c : Char) (hc : c.isDigit = false) (rest : List Char) :
      Nat.toDigits 10 m ≠ '0' :: c :: rest := fun heq =>
    Bool.false_ne_true (hc.symm.trans (hdigits c (heq ▸ by simp)))
  have hvalue := Numeral.natOfDigits?_ten_eq_some.2
    ⟨Nat.toDigits_ne_nil, hdigits, Nat.ofDigitChars_ten_toDigits⟩
  rw [natural?]
  · exact hvalue
  · exact hbase 'x' rfl
  · exact hbase 'o' rfl
  · exact hbase 'b' rfl

theorem int?_toString (n : Int) : int? (toString n).toList = some n := by
  rw [int?, isPadded_toString, if_neg Bool.false_ne_true, splitSign_toString]
  dsimp only
  rw [natural?_toDigits]
  refine congrArg some (?_ : (if decide (n < 0) = true then -(n.natAbs : Int) else n.natAbs) = n)
  by_cases hneg : n < 0
  · rw [if_pos (decide_eq_true hneg)]
    omega
  · rw [if_neg (by simp [hneg])]
    omega

/-- The names of what a plain scalar can mean besides a number in digits. -/
def names : List String :=
  ["null", "Null", "NULL", "~", "true", "True", "TRUE", "false", "False", "FALSE", ".inf", ".Inf",
    ".INF", "+.inf", "+.Inf", "+.INF", "-.inf", "-.Inf", "-.INF", ".nan", ".NaN", ".NAN"]

theorem toString_ne_of_mem_names (n : Int) : ∀ name ∈ names, toString n ≠ name := by
  rintro name mem rfl
  have hall : ∀ name ∈ names, ¬name.toList.all (fun c => c == '-' || c.isDigit) := by decide
  exact hall _ mem (numeric_toString n)

/-- An integer means nothing but a number. -/
theorem ofPlain_toString (n : Int) : ofPlain (toString n) =
    match ofInt? n with
    | some meaning => meaning
    | none => match decimal? (toString n).toList with
      | some x => .float x
      | none => .text := by
  have hpadded := isPadded_toString n
  have hinteger : integer? (toString n) = ofInt? n := by
    rw [integer?, int?_toString]
    rfl
  have hempty : (toString n).isEmpty = false := by
    rw [String.isEmpty_eq_false_iff, Ne, ← String.toList_eq_nil_iff, toList_toString]
    exact fun hnil => Nat.toDigits_ne_nil (List.append_eq_nil_iff.1 hnil).2
  have hne := toString_ne_of_mem_names n
  generalize toString n = s at *
  simp only [names, List.forall_mem_cons, List.not_mem_nil, false_imp_iff, implies_true, and_true,
    ne_eq] at hne
  have hnull : isNull s = false := by simp [isNull, hne]
  have hbool : bool? s = none := by simp [bool?, hne]
  have hfloat : float? s = decimal? s.toList := by simp [float?, hne]
  rw [ofPlain, hempty, hnull, hbool, hinteger, hpadded, hfloat]
  rfl

/-- A numeral without an exponent is rounded to a finite number, unless it is too large. -/
theorem isFinite_toBinary64 (negative : Bool) {m k : Nat} (hk : k = 308) (h : m ≤ 10 ^ k) :
    (Numeral.toBinary64 ⟨negative, m, 0⟩).isFinite = true := by
  have hratio : Binary64.ofRatio negative (m * Nat.pow 10 (0 : Int).toNat)
      (Nat.pow 10 (-(0 : Int)).toNat) = Binary64.ofRatio negative m 1 := by
    have hone : Nat.pow 10 (0 : Int).toNat = 1 := rfl
    have hother : Nat.pow 10 (-(0 : Int)).toNat = 1 := rfl
    rw [hone, hother, Nat.mul_one]
  have hsize : Numeral.size m ≤ 309 := by
    rw [Numeral.size]
    split
    · exact Nat.zero_le _
    · have hlt : m < 10 ^ (k + 1) :=
        Nat.lt_of_le_of_lt h (Nat.pow_lt_pow_right (by decide) (Nat.lt_succ_self k))
      have hlength := (Nat.length_toDigits_le_iff (by decide) (Nat.succ_pos k)).2 hlt
      omega
  rw [Numeral.toBinary64]
  split
  · exact Binary64.isFinite_ofPattern _ (by decide)
  · dsimp only
    rw [if_neg (by omega), hratio]
    exact Binary64.isFinite_ofRatio_one _ hk h

/-- Rounded, an integer is finite. -/
theorem decimal?_toString {n : Int} {k : Nat} (hk : k = 308) (h : n.natAbs ≤ 10 ^ k) :
    ∃ x, decimal? (toString n).toList = some x ∧ x.isFinite = true := by
  have hdigits : ∀ c ∈ Nat.toDigits 10 n.natAbs, c.isDigit = true :=
    fun c => Json.isDigit_of_mem_toDigits
  have hvalue := Numeral.natOfDigits?_ten_eq_some.2
    ⟨Nat.toDigits_ne_nil, hdigits, Nat.ofDigitChars_ten_toDigits⟩
  have hparse : Numeral.parse? (toString n).toList = some ⟨decide (n < 0), n.natAbs, 0⟩ := by
    rw [Numeral.parse?, splitSign_toString]
    dsimp only
    rw [List.takeWhile_eq_self_iff.2 hdigits, List.dropWhile_eq_nil_iff.2 hdigits]
    dsimp only
    rw [List.append_nil, hvalue]
    rfl
  have hfinite := isFinite_toBinary64 (decide (n < 0)) hk h
  refine ⟨_, ?_, hfinite⟩
  rw [decimal?, hparse]
  exact if_pos hfinite

end Yaml.Meaning

namespace Yaml

/-- Integers that 128 bits hold and 64 bits, signed or not, do not. -/
def IsWide (n : Int) : Prop := -2 ^ 127 ≤ n ∧ n < -2 ^ 63 ∨ 2 ^ 64 ≤ n ∧ n < 2 ^ 128

section

variable {n : Int} {k : Nat}

theorem Meaning.ofPlain_of_isWide (h : IsWide n) : ofPlain (toString n) = .wide := by
  have hsigned : Int.pow 2 63 = 2 ^ 63 := rfl
  have hsmall : Int.pow 2 64 = 2 ^ 64 := rfl
  have hlow : Int.pow 2 127 = 2 ^ 127 := rfl
  have hlarge : Int.pow 2 128 = 2 ^ 128 := rfl
  have hwide : ofInt? n = some .wide := by
    rw [IsWide] at h
    rw [ofInt?, if_neg (by omega), if_pos (by omega)]
  rw [ofPlain_toString, hwide]

/-- An integer that is not wide is kept as one of 64 bits, or rounded. -/
theorem Meaning.ofPlain_integer (hk : k = 308) (h : n.natAbs ≤ 10 ^ k) (hwide : ¬IsWide n) :
    ofPlain (toString n) = .integer n ∧ -2 ^ 63 ≤ n ∧ n < 2 ^ 64 ∨
      ∃ x, ofPlain (toString n) = .float x ∧ x.isFinite = true ∧ ¬(-2 ^ 63 ≤ n ∧ n < 2 ^ 63) := by
  have hsigned : Int.pow 2 63 = 2 ^ 63 := rfl
  have hsmall : Int.pow 2 64 = 2 ^ 64 := rfl
  have hlow : Int.pow 2 127 = 2 ^ 127 := rfl
  have hlarge : Int.pow 2 128 = 2 ^ 128 := rfl
  rw [IsWide] at hwide
  rw [ofPlain_toString]
  by_cases hrange : -2 ^ 63 ≤ n ∧ n < 2 ^ 64
  · have hinteger : ofInt? n = some (.integer n) := if_pos hrange
    rw [hinteger]
    exact .inl ⟨rfl, hrange⟩
  · have hnone : ofInt? n = none := by
      rw [ofInt?, if_neg (by omega), if_neg (by omega)]
    obtain ⟨x, hx, hfinite⟩ := decimal?_toString hk h
    rw [hnone, hx]
    exact .inr ⟨x, rfl, hfinite, by omega⟩

theorem Node.scalarValue_of_isWide (h : IsWide n) (anchor : Option Nat) :
    scalarValue ⟨anchor, none⟩ true (toString n) = .error (.unfit .value) := by
  have hvalue : scalarValue ⟨anchor, none⟩ true (toString n) =
    (Meaning.ofPlain (toString n)).toValue (toString n) := rfl
  rw [hvalue, Meaning.ofPlain_of_isWide h, Meaning.toValue]

/-- An integer that is not wide is read as what it is. -/
theorem Node.exists_scalarValue_integer (hk : k = 308) (h : n.natAbs ≤ 10 ^ k) (hwide : ¬IsWide n)
    (anchor : Option Nat) : ∃ v,
      scalarValue ⟨anchor, none⟩ true (toString n) = .ok v ∧ v.IsInteger n := by
  have hvalue : scalarValue ⟨anchor, none⟩ true (toString n) =
    (Meaning.ofPlain (toString n)).toValue (toString n) := rfl
  rw [hvalue]
  rcases Meaning.ofPlain_integer hk h hwide with ⟨hinteger, hrange⟩ | ⟨x, hfloat, hx⟩
  · rw [hinteger, Meaning.toValue]
    refine ⟨_, rfl, ?_⟩
    split
    · rename_i hpos
      have hread := Value.isInteger_ofUInt64 (by omega : n.toNat < 2 ^ 64)
      rwa [Int.toNat_of_nonneg (Int.le_of_lt hpos)] at hread
    · exact Value.isInteger_int hrange.1 (by omega)
  · rw [hfloat, Meaning.toValue]
    exact ⟨_, rfl, hx⟩

end

end Yaml

end DocPath
