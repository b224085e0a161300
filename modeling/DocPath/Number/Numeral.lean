import DocPath.Number.Binary64

/-!
# Reading decimal numerals

A numeral is a sign, decimal digits with at most one point among them, and an optional exponent. It
is read into whole digits and a power of ten first, and only then rounded, once, to the nearest
binary64 number.
-/

namespace DocPath

/-- A decimal numeral: `± digits · 10 ^ exponent`. -/
structure Numeral where
  negative : Bool
  digits : Nat
  exponent : Int
  deriving DecidableEq, Repr

namespace Numeral

/-- The value of a digit of a base up to 36, in either case. -/
def digitValue (c : Char) : Nat :=
  if '0' ≤ c ∧ c ≤ '9' then c.toNat - '0'.toNat
  else if 'a' ≤ c ∧ c ≤ 'z' then c.toNat - 'a'.toNat + 10
  else if 'A' ≤ c ∧ c ≤ 'Z' then c.toNat - 'A'.toNat + 10
  else 36

/-- The natural number that a text of digits of this base denotes; an empty text denotes none. -/
def natOfDigits? (base : Nat) (cs : List Char) : Option Nat :=
  if cs.isEmpty || cs.any (fun c => decide (base ≤ digitValue c)) then none
  else some (cs.foldl (fun n c => n * base + digitValue c) 0)

/-- The characters of decimal digits are those with a value below ten. -/
theorem digitValue_lt_ten {c : Char} : digitValue c < 10 ↔ c.isDigit = true := by
  have hc : c.isDigit = true ↔ '0' ≤ c ∧ c ≤ '9' := by
    simp only [Char.isDigit, Bool.and_eq_true, decide_eq_true_eq]
    rfl
  rw [hc, digitValue]
  split
  · rename_i h
    have h9 : c.toNat ≤ '9'.toNat := h.2
    simp only [h, and_self, iff_true]
    exact Nat.lt_of_le_of_lt (Nat.sub_le_sub_right h9 _) (by decide)
  · rename_i h
    simp only [h, iff_false, Nat.not_lt]
    split
    · omega
    · split <;> omega

theorem digitValue_of_isDigit {c : Char} (h : c.isDigit = true) :
    digitValue c = c.toNat - '0'.toNat := by
  have hc : '0' ≤ c ∧ c ≤ '9' := by
    simp only [Char.isDigit, Bool.and_eq_true, decide_eq_true_eq] at h
    exact h
  rw [digitValue, if_pos hc]

/-- Reading decimal digits from the left comes to what the digits denote. -/
theorem foldl_digitValue {cs : List Char} (h : ∀ c ∈ cs, c.isDigit = true) (start : Nat) :
    cs.foldl (fun n c => n * 10 + digitValue c) start = Nat.ofDigitChars 10 cs start := by
  induction cs generalizing start with
  | nil => rfl
  | cons c rest ih =>
    have hrest : ∀ d ∈ rest, d.isDigit = true := fun d hd => h d (List.mem_cons_of_mem _ hd)
    rw [List.foldl_cons, ih hrest, digitValue_of_isDigit (h c List.mem_cons_self),
      Nat.mul_comm start 10]
    rfl

/-- A decimal number is read from one digit or more, and from nothing else. -/
theorem natOfDigits?_ten_eq_some {cs : List Char} {n : Nat} :
    natOfDigits? 10 cs = some n ↔
      cs ≠ [] ∧ (∀ c ∈ cs, c.isDigit = true) ∧ Nat.ofDigitChars 10 cs 0 = n := by
  have refused : (cs.isEmpty || cs.any fun c => decide (10 ≤ digitValue c)) = true ↔
      ¬(cs ≠ [] ∧ ∀ c ∈ cs, c.isDigit = true) := by
    simp [← digitValue_lt_ten, Classical.or_iff_not_imp_left]
  rw [natOfDigits?]
  by_cases h : cs ≠ [] ∧ ∀ c ∈ cs, c.isDigit = true
  · rw [if_neg (mt refused.1 (not_not_intro h)), foldl_digitValue h.2, Option.some.injEq]
    exact ⟨fun hn => ⟨h.1, h.2, hn⟩, fun hn => hn.2.2⟩
  · rw [if_pos (refused.2 h)]
    exact ⟨nofun, fun hn => absurd ⟨hn.1, hn.2.1⟩ h⟩

/-- An optional sign and the text after it. -/
def splitSign : List Char → Bool × List Char
  | '-' :: rest => (true, rest)
  | '+' :: rest => (false, rest)
  | cs => (false, cs)

/-- The exponent that the text after the digits gives: none is zero, else `e` and a signed number.
-/
def exponent? : List Char → Option Int
  | [] => some 0
  | e :: rest =>
    if e = 'e' ∨ e = 'E' then
      let (negative, digits) := splitSign rest
      (natOfDigits? 10 digits).map fun n => if negative then -(n : Int) else n
    else none

/-- Reads a numeral: at least one digit, before or after the point. -/
def parse? (cs : List Char) : Option Numeral :=
  let (negative, body) := splitSign cs
  let whole := body.takeWhile Char.isDigit
  let afterWhole := body.dropWhile Char.isDigit
  let (fraction, rest) := match afterWhole with
    | '.' :: tail => (tail.takeWhile Char.isDigit, tail.dropWhile Char.isDigit)
    | _ => ([], afterWhole)
  match natOfDigits? 10 (whole ++ fraction), exponent? rest with
  | some digits, some exponent => some ⟨negative, digits, exponent - fraction.length⟩
  | _, _ => none

/-- How many decimal digits a natural number has; zero has none. -/
def size (n : Nat) : Nat := if n = 0 then 0 else (Nat.toDigits 10 n).length

/-- The binary64 number nearest to a numeral, ties to even. Magnitudes from `10 ^ 310` are infinite
and those below `10 ^ -330` zero, whatever the digits, so no power of ten is computed for them. -/
def toBinary64 (x : Numeral) : Binary64 :=
  let top := x.exponent + size x.digits
  if x.digits = 0 ∨ top < -330 then .zero x.negative
  else if 310 < top then .infinity x.negative
  else .ofRatio x.negative (x.digits * Nat.pow 10 x.exponent.toNat)
    (Nat.pow 10 (-x.exponent).toNat)

end Numeral

end DocPath
