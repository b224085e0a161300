import Mathlib
import DocPath.Document.Equality
import DocPath.Proofs.Walk
import DocPath.Proofs.WholeNumbers

/-!
# Equality of values as equality of numbers

Two binary64 numbers that are no NaN are equal if they denote the same. An integer is compared with
a binary64 number by what it is rounded to, so that is equality of numbers for the integers that are
rounded to themselves (`IsExact`), all those up to `2 ^ 53` among them, and for no others. Equality
of documents is made from that of their scalars place by place: it can be turned around and it
allows to put equals for equals, and where the integers are exact two values that are equal to a
third one are equal to each other.
-/

namespace DocPath

namespace Binary64

variable {x y : Binary64}

/-! ### Binary64 numbers -/

theorem equals_iff (hx : x.isNaN = false) (hy : y.isNaN = false) :
    x.equals y = true ↔ x.pattern = y.pattern ∧ (x.isNegative = y.isNegative ∨ x.pattern = 0) := by
  rw [equals, hx, hy]
  simp

theorem equals_comm (x y : Binary64) : x.equals y = y.equals x := by
  rw [Bool.eq_iff_iff, equals, equals]
  simp only [Bool.and_eq_true, Bool.or_eq_true, beq_iff_eq]
  constructor
  all_goals
    rintro ⟨⟨hfirst, hsecond⟩, hpattern, hsign⟩
    exact ⟨⟨hsecond, hfirst⟩, hpattern.symm, hsign.imp Eq.symm hpattern.symm.trans⟩

theorem isNaN_of_equals (h : x.equals y = true) : x.isNaN = false ∧ y.isNaN = false := by
  rw [equals] at h
  simp only [Bool.and_eq_true, Bool.not_eq_true'] at h
  exact h.1

theorem equals_self (hx : x.isNaN = false) : x.equals x = true :=
  (equals_iff hx hx).2 ⟨rfl, .inl rfl⟩

/-- Finite numbers denote the same rational if they count the same units. -/
theorem toRat_inj : x.toRat = y.toRat ↔ x.signedUnits = y.signedUnits := by
  have hscale : (unitsPerOne : ℚ) ≠ 0 := Nat.cast_ne_zero.2 (Nat.ne_of_gt unitsPerOne_pos)
  rw [← mul_left_inj' hscale, toRat_mul_unitsPerOne, toRat_mul_unitsPerOne, Int.cast_inj]

/-- The units of a finite number tell its pattern, and its sign unless it is zero. -/
theorem signedUnits_inj (hx : x.isFinite = true) (hy : y.isFinite = true) :
    x.signedUnits = y.signedUnits ↔
      x.pattern = y.pattern ∧ (x.isNegative = y.isNegative ∨ x.pattern = 0) := by
  have hpatterns : x.units = y.units ↔ x.pattern = y.pattern := by
    refine ⟨fun h => ?_, fun h => congrArg unitsOf h⟩
    rw [← patternOfRatio_unitsOf (Nat.le_of_lt (isFinite_iff.1 hx)),
      ← patternOfRatio_unitsOf (Nat.le_of_lt (isFinite_iff.1 hy))]
    exact congrArg (patternOfRatio · 1) h
  have hzero : x.units = 0 ↔ x.pattern = 0 := unitsOf_eq_zero
  rw [← hpatterns, ← hzero, signedUnits, signedUnits]
  cases x.isNegative <;> cases y.isNegative <;> simp <;> omega

theorem isNaN_of_quantity? {q : Quantity} (h : x.quantity? = some q) : x.isNaN = false := by
  rw [quantity?] at h
  cases hx : x.isNaN with
  | true =>
    rw [hx] at h
    cases h
  | false => rfl

theorem pattern_of_not_finite (hx : x.isNaN = false) (h : x.isFinite = false) :
    x.pattern = infinitePattern :=
  Nat.le_antisymm (Nat.not_lt.1 (of_decide_eq_false hx)) (Nat.not_lt.1 (of_decide_eq_false h))

/-- Numbers that are no NaN are equal if they denote the same. -/
theorem equals_iff_quantity? (hx : x.isNaN = false) (hy : y.isNaN = false) :
    x.equals y = true ↔ x.quantity? = y.quantity? := by
  rw [equals_iff hx hy, quantity?, quantity?, hx, hy]
  cases hfinite : x.isFinite with
  | true =>
    cases hother : y.isFinite with
    | true => simp [← signedUnits_inj hfinite hother, toRat_inj]
    | false =>
      -- the pattern of infinity is that of no finite number
      have hpattern := pattern_of_not_finite hy hother
      have hlt := isFinite_iff.1 hfinite
      simp [hpattern, Nat.ne_of_lt hlt]
  | false =>
    have hinfinite := pattern_of_not_finite hx hfinite
    have hne : infinitePattern ≠ 0 := by decide
    cases hother : y.isFinite with
    | true =>
      have hlt := isFinite_iff.1 hother
      simp [hinfinite, Nat.ne_of_gt hlt]
    | false => simp [hinfinite, pattern_of_not_finite hy hother, hne]

theorem equals_trans {z : Binary64} (hxy : x.equals y = true) (hyz : y.equals z = true) :
    x.equals z = true := by
  obtain ⟨hx, hy⟩ := isNaN_of_equals hxy
  obtain ⟨-, hz⟩ := isNaN_of_equals hyz
  rw [equals_iff_quantity? hx hy] at hxy
  rw [equals_iff_quantity? hy hz] at hyz
  exact (equals_iff_quantity? hx hz).2 (hxy.trans hyz)

/-! ### Integers -/

/-- The integer is a binary64 number: it is rounded to itself. -/
def IsExact (n : Int64) : Prop := (ofInt n.toInt).toRat = n.toInt

theorem isFinite_ofInt (n : Int64) : (ofInt n.toInt).isFinite = true := by
  have hlow : -2 ^ 63 ≤ n.toInt := n.le_toInt
  have hhigh : n.toInt < 2 ^ 63 := n.toInt_lt
  obtain ⟨k, hk⟩ : ∃ k, k = 308 := ⟨_, rfl⟩
  refine isFinite_ofRatio_one _ hk (Nat.le_trans (?_ : _ ≤ 10 ^ 19) ?_)
  · omega
  · exact Nat.pow_le_pow_right (by decide) (by omega)

/-- All integers of no more digits than a mantissa has are binary64 numbers. -/
theorem isExact_of_le {n : Int64} (h : n.toInt.natAbs ≤ 2 ^ 53) : IsExact n := by
  obtain ⟨pattern, hlt, hunits⟩ := exists_unitsOf_eq h
  exact toRat_eq_iff.2 (signedUnits_ofInt hlt hunits)

/-- An exact integer denotes what it is rounded to. -/
theorem quantity?_ofInt {n : Int64} (h : IsExact n) :
    (ofInt n.toInt).quantity? = some (.rational n.toInt) := by
  have hfinite := isFinite_ofInt n
  rw [quantity?, isNaN_of_isFinite hfinite, hfinite, h]
  rfl

/-! ### The first integer that is not exact -/

/-- The number `2 ^ 53`. -/
def exactLimit : Binary64 := ⟨0x4340000000000000⟩

theorem ofInt_exactLimit : ofInt 9007199254740992 = exactLimit :=
  (ofInt_long 1 (by decide) (by decide) (by decide)).trans (by decide)

/-- The next integer lies half way to the next number, and the tie goes to the even one. -/
theorem ofInt_exactLimit_succ : ofInt 9007199254740993 = exactLimit :=
  (ofInt_long 1 (by decide) (by decide) (by decide)).trans (by decide)

theorem quantity?_exactLimit : exactLimit.quantity? = some (.rational 9007199254740992) := by
  have hquantity := quantity?_ofInt (isExact_of_le (n := 9007199254740992) (by decide))
  rw [← ofInt_exactLimit]
  exact hquantity

end Binary64

namespace Value

open Binary64

/-! ### Properties of all scalars -/

/-- All scalars in a value have a property. -/
inductive AllScalars (P : Value → Prop) : Value → Prop where
  | scalar {v : Value} (h : v.isContainer = false) (holds : P v) : AllScalars P v
  | sequence {items : List Value} (h : ∀ item ∈ items, AllScalars P item) :
    AllScalars P (.sequence items)
  | mapping {fields : Fields Value} (h : ∀ entry ∈ fields, AllScalars P entry.2) :
    AllScalars P (.mapping fields)

/-- There is no NaN in a value. -/
def NaNFree (v : Value) : Prop := v.AllScalars fun v => ∀ x, v = .float x → x.isNaN = false

/-- All integers in a value are binary64 numbers. -/
def Exact (v : Value) : Prop := v.AllScalars fun v => ∀ n, v = .int n → IsExact n

/-- What a number denotes. -/
def quantity? : Value → Option Quantity
  | .int n => some (.rational n.toInt)
  | .float x => x.quantity?
  | _ => none

namespace AllScalars

variable {P : Value → Prop} {v : Value} {items : List Value} {fields : Fields Value}

theorem holds_of_scalar (h : v.AllScalars P) (hv : v.isContainer = false) : P v := by
  cases h with
  | scalar _ holds => exact holds
  | sequence h => cases hv
  | mapping h => cases hv

theorem of_mem_items (h : (Value.sequence items).AllScalars P) {item : Value} (mem : item ∈ items) :
    item.AllScalars P := by
  cases h with
  | scalar h _ => cases h
  | sequence h => exact h item mem

theorem of_mem (h : (Value.mapping fields).AllScalars P) {entry : String × Value}
    (mem : entry ∈ fields) : entry.2.AllScalars P := by
  cases h with
  | scalar h _ => cases h
  | mapping h => exact h entry mem

end AllScalars

/-! ### Equality by parts -/

variable {a b c v : Value}

theorem itemsEqual_iff {items others : List Value} :
    itemsEqual items others = true ↔
      List.Forall₂ (fun a b => (a == b) = true) items others := by
  induction items generalizing others with
  | nil => cases others <;> simp [itemsEqual]
  | cons item rest ih => cases others with
    | nil => simp [itemsEqual]
    | cons other more =>
      rw [itemsEqual, Bool.and_eq_true, ih, List.forall₂_cons]
      rfl

theorem fieldsEqual_iff {fields others : Fields Value} :
    fieldsEqual fields others = true ↔
      List.Forall₂ (fun a b => a.1 = b.1 ∧ (a.2 == b.2) = true) fields others := by
  induction fields generalizing others with
  | nil => cases others <;> simp [fieldsEqual]
  | cons entry rest ih => cases others with
    | nil => simp [fieldsEqual]
    | cons other more =>
      rw [fieldsEqual, Bool.and_eq_true, Bool.and_eq_true, beq_iff_eq, ih, List.forall₂_cons]
      rfl

/-- What is equal to a sequence is a sequence of equal items. -/
theorem beq_sequence {items : List Value} :
    (sequence items == v) = true ↔
      ∃ others, v = .sequence others ∧
        List.Forall₂ (fun a b => (a == b) = true) items others := by
  cases v with
  | sequence others =>
    refine itemsEqual_iff.trans ⟨fun h => ⟨others, rfl, h⟩, ?_⟩
    rintro ⟨_, ⟨⟩, h⟩
    exact h
  | _ => exact iff_of_false Bool.false_ne_true fun ⟨_, h, _⟩ => by cases h

/-- What is equal to a mapping is a mapping with the same keys and equal values. -/
theorem beq_mapping {fields : Fields Value} :
    (mapping fields == v) = true ↔
      ∃ others, v = .mapping others ∧
        List.Forall₂ (fun a b => a.1 = b.1 ∧ (a.2 == b.2) = true) fields others := by
  cases v with
  | mapping others =>
    refine fieldsEqual_iff.trans ⟨fun h => ⟨others, rfl, h⟩, ?_⟩
    rintro ⟨_, ⟨⟩, h⟩
    exact h
  | _ => exact iff_of_false Bool.false_ne_true fun ⟨_, h, _⟩ => by cases h

theorem beq_of_scalar (h : a.isContainer = false) (b : Value) : (a == b) = scalarEquals a b := by
  cases a with
  | sequence items => cases h
  | mapping fields => cases h
  | _ => cases b <;> rfl

/-- An integer is compared with a binary64 number by what it is rounded to. -/
theorem int_beq_float (n : Int64) (x : Binary64) :
    (int n == float x) = (ofInt n.toInt).equals x := rfl

theorem float_beq_int (x : Binary64) (n : Int64) :
    (float x == int n) = (ofInt n.toInt).equals x := rfl

/-- Only scalars are equal to scalars, and containers to containers. -/
theorem isContainer_of_beq (h : (a == b) = true) : a.isContainer = b.isContainer := by
  cases a with
  | sequence items =>
    obtain ⟨others, rfl, -⟩ := beq_sequence.1 h
    rfl
  | mapping fields =>
    obtain ⟨others, rfl, -⟩ := beq_mapping.1 h
    rfl
  | _ => cases b <;> first | rfl | cases h

/-! ### Scalars -/

theorem scalarEquals_comm (a b : Value) : scalarEquals a b = scalarEquals b a := by
  cases a <;> cases b <;> simp only [scalarEquals, Binary64.equals_comm, Bool.beq_comm]

theorem scalarEquals_self (h : a.isContainer = false)
    (hnan : ∀ x, a = .float x → x.isNaN = false) : scalarEquals a a = true := by
  cases a with
  | float x => exact Binary64.equals_self (hnan x rfl)
  | sequence items => cases h
  | mapping fields => cases h
  | null => rfl
  | _ => exact beq_self_eq_true _

/-- Equal scalars are the same, or numbers that are equal once they are rounded. -/
theorem cases_of_scalarEquals (h : scalarEquals a b = true) :
    a = b ∨ ∃ x y, a.toBinary64? = some x ∧ b.toBinary64? = some y ∧ x.equals y = true := by
  cases a with
  | int n => cases b with
    | int m => exact .inl (congrArg int (eq_of_beq h))
    | float y => exact .inr ⟨_, y, rfl, rfl, h⟩
    | _ => cases h
  | float x => cases b with
    | int m => exact .inr ⟨x, _, rfl, rfl, (Binary64.equals_comm x _).trans h⟩
    | float y => exact .inr ⟨x, y, rfl, rfl, h⟩
    | _ => cases h
  | null => cases b <;> first | exact .inl rfl | cases h
  | bool p => cases b with
    | bool q => exact .inl (congrArg bool (eq_of_beq h))
    | _ => cases h
  | text s => cases b with
    | text t => exact .inl (congrArg text (eq_of_beq h))
    | _ => cases h
  | _ => cases b <;> cases h

/-- What an exact number denotes is what it is rounded to. -/
theorem quantity?_of_toBinary64? {x : Binary64} (h : ∀ n, a = .int n → IsExact n)
    (hx : a.toBinary64? = some x) : a.quantity? = x.quantity? := by
  cases a with
  | int n =>
    cases hx
    exact (quantity?_ofInt (h n rfl)).symm
  | float y =>
    cases hx
    rfl
  | _ => cases hx

/-- Exact numbers that are equal once they are rounded are equal. -/
theorem scalarEquals_of_equals {x y : Binary64} (ha : ∀ n, a = .int n → IsExact n)
    (hb : ∀ n, b = .int n → IsExact n) (hx : a.toBinary64? = some x) (hy : b.toBinary64? = some y)
    (h : x.equals y = true) : scalarEquals a b = true := by
  cases a with
  | int n => cases b with
    | int m =>
      obtain ⟨hxnan, hynan⟩ := isNaN_of_equals h
      have hquantity := (equals_iff_quantity? hxnan hynan).1 h
      rw [← quantity?_of_toBinary64? ha hx, ← quantity?_of_toBinary64? hb hy, quantity?,
        quantity?] at hquantity
      simp only [Option.some.injEq, Quantity.rational.injEq, Int.cast_inj] at hquantity
      exact beq_iff_eq.2 (Int64.toInt_inj.1 hquantity)
    | float z =>
      cases hx
      cases hy
      exact h
    | _ => cases hy
  | float z =>
    cases hx
    cases b with
    | int m =>
      cases hy
      exact (Binary64.equals_comm _ _).trans h
    | float w =>
      cases hy
      exact h
    | _ => cases hy
  | _ => cases hx

/-- Scalars that are equal to a third one are equal, integers as long as they are exact. -/
theorem scalarEquals_trans (ha : ∀ n, a = .int n → IsExact n) (hc : ∀ n, c = .int n → IsExact n)
    (hab : scalarEquals a b = true) (hbc : scalarEquals b c = true) : scalarEquals a c = true := by
  rcases cases_of_scalarEquals hab with rfl | ⟨x, y, hx, hy, hxy⟩
  · exact hbc
  · rcases cases_of_scalarEquals hbc with rfl | ⟨y', z, hy', hz, hyz⟩
    · exact hab
    · obtain rfl : y = y' := Option.some.inj (hy.symm.trans hy')
      exact scalarEquals_of_equals ha hc hx hz (Binary64.equals_trans hxy hyz)

theorem isContainer_of_quantity? {q : Quantity} (h : a.quantity? = some q) :
    a.isContainer = false := by
  cases a with
  | sequence items => cases h
  | mapping fields => cases h
  | _ => rfl

/-- An exact number is equal to the binary64 numbers that denote the same. -/
theorem int_beq_iff_quantity? {n : Int64} {x : Binary64} (h : IsExact n) (hx : x.isNaN = false) :
    (int n == float x) = true ↔ x.quantity? = some (.rational n.toInt) := by
  rw [int_beq_float, ← quantity?_ofInt h, eq_comm (a := x.quantity?)]
  exact equals_iff_quantity? (isNaN_of_isFinite (isFinite_ofInt n)) hx

/-- Two numbers are equal if they denote the same, an integer and a binary64 number as long as the
integer is exact. -/
theorem scalarEquals_iff_quantity {q r : Quantity}
    (h : ∀ n x, a = .int n ∧ b = .float x ∨ a = .float x ∧ b = .int n → IsExact n)
    (hq : a.quantity? = some q) (hr : b.quantity? = some r) :
    scalarEquals a b = true ↔ q = r := by
  cases a with
  | int n =>
    cases hq
    cases b with
    | int m =>
      cases hr
      rw [Quantity.rational.injEq, Int.cast_inj, Int64.toInt_inj]
      exact beq_iff_eq
    | float x =>
      have hquantity := int_beq_iff_quantity? (h n x (.inl ⟨rfl, rfl⟩)) (isNaN_of_quantity? hr)
      rw [quantity?] at hr
      rw [hr, Option.some.injEq] at hquantity
      exact hquantity.trans eq_comm
    | _ => cases hr
  | float x => cases b with
    | int m =>
      cases hr
      have hquantity := int_beq_iff_quantity? (h m x (.inr ⟨rfl, rfl⟩)) (isNaN_of_quantity? hq)
      rw [quantity?] at hq
      rw [hq, Option.some.injEq] at hquantity
      exact hquantity
    | float y =>
      have hquantity := equals_iff_quantity? (isNaN_of_quantity? hq) (isNaN_of_quantity? hr)
      rw [quantity?] at hq hr
      rw [hq, hr, Option.some.injEq] at hquantity
      exact hquantity
    | _ => cases hr
  | _ => cases hq

/-- A number is equal to all numbers that denote the same, and to no others, if it is exact. -/
theorem isExact_iff {n : Int64} : IsExact n ↔ ∀ x : Binary64, x.isNaN = false →
    ((int n == .float x) = true ↔ x.quantity? = some (.rational n.toInt)) := by
  constructor
  · intro h x hx
    exact int_beq_iff_quantity? h hx
  · intro h
    have hfinite := isFinite_ofInt n
    have hnan := isNaN_of_isFinite hfinite
    have hquantity := (h _ hnan).1 (Binary64.equals_self hnan)
    rw [Binary64.quantity?, hnan, hfinite] at hquantity
    simp only [Bool.false_eq_true, if_false, if_true, Option.some.injEq,
      Quantity.rational.injEq] at hquantity
    exact hquantity

/-! ### Values -/

section

variable {α β : Type} {R : α → β → Prop} {xs : List α} {ys : List β}

theorem forall₂_comm {S : β → α → Prop} (h : ∀ x ∈ xs, ∀ y, R x y ↔ S y x) :
    List.Forall₂ R xs ys ↔ List.Forall₂ S ys xs := by
  induction xs generalizing ys with
  | nil => cases ys <;> simp
  | cons x rest ih => cases ys with
    | nil => simp
    | cons y more =>
      rw [List.forall₂_cons, List.forall₂_cons, h x List.mem_cons_self,
        ih fun z mem => h z (List.mem_cons_of_mem _ mem)]

theorem forall₂_trans {γ : Type} {S : β → γ → Prop} {T : α → γ → Prop} {zs : List γ}
    (h : ∀ x ∈ xs, ∀ y, ∀ z ∈ zs, R x y → S y z → T x z) (hxy : List.Forall₂ R xs ys)
    (hyz : List.Forall₂ S ys zs) : List.Forall₂ T xs zs := by
  induction hxy generalizing zs with
  | nil =>
    cases hyz
    exact .nil
  | cons first _ ih => cases hyz with
    | cons second rest =>
      exact .cons (h _ List.mem_cons_self _ _ List.mem_cons_self first second)
        (ih (fun x hx y z hz => h x (List.mem_cons_of_mem _ hx) y z (List.mem_cons_of_mem _ hz))
          rest)

/-- Something that is related to an item may be put in its place. -/
theorem forall₂_set {R : α → α → Prop} (h : ∀ x ∈ xs, R x x) {i : Nat} {x y : α}
    (hx : xs[i]? = some x) (hxy : R x y) : List.Forall₂ R xs (xs.set i y) := by
  induction xs generalizing i with
  | nil => cases hx
  | cons first rest ih =>
    have hrest : ∀ z ∈ rest, R z z := fun z mem => h z (List.mem_cons_of_mem _ mem)
    cases i with
    | zero =>
      cases hx
      exact .cons hxy (List.forall₂_same.2 hrest)
    | succ i => exact .cons (h first List.mem_cons_self) (ih hrest hx)

end

theorem beq_self (h : a.NaNFree) : (a == a) = true := by
  induction h with
  | scalar h holds =>
    rw [beq_of_scalar h]
    exact scalarEquals_self h holds
  | @sequence items _ ih => exact beq_sequence.2 ⟨items, rfl, List.forall₂_same.2 ih⟩
  | @mapping fields _ ih =>
    exact beq_mapping.2 ⟨fields, rfl, List.forall₂_same.2 fun entry mem => ⟨rfl, ih entry mem⟩⟩

theorem beq_comm {P : Value → Prop} (h : a.AllScalars P) (b : Value) : (a == b) = (b == a) := by
  rw [Bool.eq_iff_iff]
  induction h generalizing b with
  | @scalar v h _ =>
    have hcomm (hb : b.isContainer = false) : (v == b) = true ↔ (b == v) = true := by
      rw [beq_of_scalar h, beq_of_scalar hb, scalarEquals_comm]
    constructor
    · intro heq
      exact (hcomm ((isContainer_of_beq heq).symm.trans h)).1 heq
    · intro heq
      exact (hcomm ((isContainer_of_beq heq).trans h)).2 heq
  | @sequence items _ ih =>
    cases b with
    | sequence others =>
      exact itemsEqual_iff.trans ((forall₂_comm ih).trans itemsEqual_iff.symm)
    | _ => exact Iff.rfl
  | @mapping fields _ ih =>
    cases b with
    | mapping others =>
      refine fieldsEqual_iff.trans ((forall₂_comm fun entry mem other => ?_).trans
        fieldsEqual_iff.symm)
      rw [eq_comm, ih entry mem other.2]
    | _ => exact Iff.rfl

/-- Values that are equal to a third one are equal, if the integers in them are exact. -/
theorem beq_trans (ha : a.Exact) (hc : c.Exact) (hab : (a == b) = true) (hbc : (b == c) = true) :
    (a == c) = true := by
  induction ha generalizing b c with
  | @scalar v h holds =>
    have hb : b.isContainer = false := (isContainer_of_beq hab).symm.trans h
    have hcontainer : c.isContainer = false := (isContainer_of_beq hbc).symm.trans hb
    rw [beq_of_scalar h] at hab ⊢
    rw [beq_of_scalar hb] at hbc
    exact scalarEquals_trans holds (hc.holds_of_scalar hcontainer) hab hbc
  | @sequence items _ ih =>
    obtain ⟨others, rfl, hfirst⟩ := beq_sequence.1 hab
    obtain ⟨more, rfl, hsecond⟩ := beq_sequence.1 hbc
    refine beq_sequence.2 ⟨more, rfl, forall₂_trans ?_ hfirst hsecond⟩
    intro x hx y z hz hxy hyz
    exact ih x hx (hc.of_mem_items hz) hxy hyz
  | @mapping fields _ ih =>
    obtain ⟨others, rfl, hfirst⟩ := beq_mapping.1 hab
    obtain ⟨more, rfl, hsecond⟩ := beq_mapping.1 hbc
    refine beq_mapping.2 ⟨more, rfl, forall₂_trans ?_ hfirst hsecond⟩
    intro x hx y z hz hxy hyz
    exact ⟨hxy.1.trans hyz.1, ih x hx (hc.of_mem hz) hxy.2 hyz.2⟩

/-! ### Equals for equals -/

theorem forall₂_insert {fields : Fields Value} (h : (mapping fields).NaNFree) {name : String}
    {child node : Value} (hget : Fields.get? name fields = some child)
    (heq : (child == node) = true) :
    List.Forall₂ (fun a b : String × Value => a.1 = b.1 ∧ (a.2 == b.2) = true) fields
      (Fields.insert name node fields) := by
  have hself : ∀ entry ∈ fields, entry.1 = entry.1 ∧ (entry.2 == entry.2) = true :=
    fun entry mem => ⟨rfl, beq_self (h.of_mem mem)⟩
  clear h
  induction fields with
  | nil => cases hget
  | cons entry rest ih =>
    have hrest := fun other mem => hself other (List.mem_cons_of_mem _ mem)
    rw [Fields.get?_cons] at hget
    split at hget
    · rename_i hname
      cases hget
      rw [Fields.insert, if_pos hname]
      exact .cons ⟨hname.symm, heq⟩ (List.forall₂_same.2 hrest)
    · rename_i hname
      have there : Fields.contains name rest = true := by
        rw [Fields.contains, hget]
        rfl
      rw [Fields.insert, if_neg hname, if_neg (by simp [there])]
      exact .cons (hself entry List.mem_cons_self) (ih hget hrest)

/-- A value is equal to itself with something equal one step down. -/
theorem beq_setChild {step : Step} {child node : Value} (h : a.NaNFree)
    (hc : child? step a = some child) (heq : (child == node) = true) :
    (a == setChild node step a) = true := by
  cases step with
  | key name =>
    obtain ⟨fields, rfl, hget⟩ := child?_key_eq_some.1 hc
    exact beq_mapping.2 ⟨_, rfl, forall₂_insert h hget heq⟩
  | index i =>
    obtain ⟨items, rfl, hget⟩ := child?_index_eq_some.1 hc
    exact beq_sequence.2 ⟨_, rfl, forall₂_set (fun item mem => beq_self (h.of_mem_items mem))
      hget heq⟩

theorem NaNFree.child? {step : Step} {child : Value} (h : a.NaNFree)
    (hc : child? step a = some child) : child.NaNFree := by
  cases step with
  | key name =>
    obtain ⟨fields, rfl, hget⟩ := child?_key_eq_some.1 hc
    exact h.of_mem (Fields.mem_of_get? hget)
  | index i =>
    obtain ⟨items, rfl, hget⟩ := child?_index_eq_some.1 hc
    exact h.of_mem_items (List.mem_of_getElem? hget)

/-- A value is equal to itself with something equal at the end of any path. -/
theorem beq_put {p : List Step} {old node : Value} (h : a.NaNFree) (hget : a.get? p = some old)
    (heq : (old == node) = true) : (a == put node p a) = true := by
  induction p generalizing a with
  | nil =>
    cases hget
    exact heq
  | cons step rest ih =>
    obtain ⟨child, hc, hrest⟩ := get?_cons_eq_some.1 hget
    rw [put, slot_of_child? hc]
    exact beq_setChild h hc (ih (h.child? hc) hrest)

/-! ### The main theorem -/

theorem isNaN_exactLimit : exactLimit.isNaN = false := isNaN_of_quantity? quantity?_exactLimit

theorem int_beq_exactLimit : (int 9007199254740992 == float exactLimit) = true := by
  have hn : (9007199254740992 : Int64).toInt = 9007199254740992 := by decide
  rw [int_beq_float, hn, ofInt_exactLimit]
  exact Binary64.equals_self isNaN_exactLimit

theorem float_beq_exactLimit_succ : (float exactLimit == int 9007199254740993) = true := by
  have hn : (9007199254740993 : Int64).toInt = 9007199254740993 := by decide
  rw [float_beq_int, hn, ofInt_exactLimit_succ]
  exact Binary64.equals_self isNaN_exactLimit

/-- Equality of values without a NaN goes both ways, holds of each value and itself and allows to
put equals for equals, and comparing with an integer or a binary64 number agrees with it from either
side. Values that are equal to a third one are equal if the integers in them are exact, as all up to
`2 ^ 53` are. Two numbers are equal if they denote the same, an integer and a binary64 number if the
integer is exact; one that is not is equal to a number that it does not denote. -/
theorem beq_respects_numbers (a b c : Value) (h : a.NaNFree) :
    (a == a) = true ∧
    (a == b) = (b == a) ∧
    (a.Exact → c.Exact → (a == b) = true → (b == c) = true → (a == c) = true) ∧
    ((∀ n x, a = .int n ∧ b = .float x ∨ a = .float x ∧ b = .int n → IsExact n) →
      ∀ q r, a.quantity? = some q → b.quantity? = some r → ((a == b) = true ↔ q = r)) ∧
    (∀ n : Int64, n.toInt.natAbs ≤ 2 ^ 53 → IsExact n) ∧
    (∀ n : Int64, IsExact n ↔ ∀ x : Binary64, x.isNaN = false →
      ((int n == .float x) = true ↔ x.quantity? = some (.rational n.toInt))) ∧
    (∀ p old node, a.get? p = some old → (old == node) = true → (a == put node p a) = true) ∧
    (∀ n, a.equalsInt n = (a == .int n) ∧ a.equalsInt n = (int n == a)) ∧
    (∀ n, a.equalsInt32 n = (a == .int n.toInt64) ∧ a.equalsInt32 n = (int n.toInt64 == a)) ∧
    (∀ x, a.equalsFloat x = (a == .float x) ∧ a.equalsFloat x = (float x == a)) := by
  have hcomm := beq_comm h
  refine ⟨beq_self h, hcomm b, fun ha hc => beq_trans ha hc, ?_, fun _ => isExact_of_le,
    fun _ => isExact_iff, fun _ _ _ => beq_put h, fun n => ⟨rfl, hcomm _⟩, fun n => ⟨rfl, hcomm _⟩,
    fun x => ⟨rfl, hcomm _⟩⟩
  intro hexact q r hq hr
  rw [beq_of_scalar (isContainer_of_quantity? hq)]
  exact scalarEquals_iff_quantity hexact hq hr

/-- The last integer up to which all are exact, and the number that it is in its place. -/
theorem beq_respects_numbers_exact :
    let a : Value := .sequence [.int 9007199254740992, .text "a"]
    let b : Value := .sequence [.float exactLimit, .text "a"]
    a.NaNFree ∧ (a == b) = true ∧ (b == a) = true := by
  intro a b
  have hfree : a.NaNFree := by
    refine .sequence fun item mem => ?_
    simp only [List.mem_cons, List.not_mem_nil, or_false] at mem
    rcases mem with rfl | rfl
    all_goals exact .scalar rfl fun x h => by cases h
  have hput : (a == b) = true := (beq_respects_numbers a b b hfree).2.2.2.2.2.2.1 [.index 0]
    (.int 9007199254740992) (.float exactLimit) rfl int_beq_exactLimit
  exact ⟨hfree, hput, (beq_respects_numbers a b b hfree).2.1 ▸ hput⟩

/-- The integer after `2 ^ 53` is equal to that number, which it does not denote, and not to the
integer that denotes it. -/
theorem beq_exactLimit_succ :
    (int 9007199254740992 == float exactLimit) = true ∧
    (float exactLimit == int 9007199254740993) = true ∧
    (int 9007199254740992 == int 9007199254740993) = false ∧
    ¬(∀ a b c : Value, a.NaNFree → b.NaNFree → c.NaNFree → (a == b) = true → (b == c) = true →
      (a == c) = true) ∧
    ¬(∀ (a b : Value) (q r : Quantity), a.quantity? = some q → b.quantity? = some r →
      ((a == b) = true ↔ q = r)) := by
  have hfloat := float_beq_exactLimit_succ
  have hints : (int 9007199254740992 == int 9007199254740993) = false := by decide
  refine ⟨int_beq_exactLimit, hfloat, hints, fun htrans => ?_, fun hnumbers => ?_⟩
  · have hfree (n : Int64) : (int n).NaNFree := .scalar rfl fun x h => by cases h
    have hlimit : (float exactLimit).NaNFree := .scalar rfl fun x h => by
      cases h
      exact isNaN_exactLimit
    exact Bool.false_ne_true
      (hints.symm.trans (htrans _ _ _ (hfree _) hlimit (hfree _) int_beq_exactLimit hfloat))
  · have hsame := (hnumbers (float exactLimit) (int 9007199254740993) (.rational _) (.rational _)
      quantity?_exactLimit rfl).1 hfloat
    have hn : (9007199254740993 : Int64).toInt = 9007199254740993 := by decide
    rw [hn] at hsame
    have hrational := Quantity.rational.inj hsame
    norm_num at hrational

end Value

end DocPath
