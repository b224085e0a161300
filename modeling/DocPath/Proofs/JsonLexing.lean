import DocPath.Proofs.JsonLocality

/-!
# Written tokens are read again

Cutting a text into tokens undoes `spell`: each token is read up to where its text ends, and the
blanks of either layout are passed over (`lex_write`). Escaped characters go one by one. An integer
would go on into a digit that stood right after it, so a row has to have a sign between any two
atoms; and what is kept as a binary64 is left out, since its digits need not give it back.
-/

namespace DocPath.Json

/-! ### Texts in quotes -/

/-- A control character is written by its number, which two hexadecimal digits hold. -/
theorem codeUnit?_hexDigit : ∀ n : Fin 32,
    codeUnit? '0' '0' (hexDigit (n / 16)) (hexDigit (n % 16)) = some n.val := by
  decide

/-- One character inside quotes is read as what it was before it was escaped. -/
theorem readText?_escape (c : Char) (cs : List Char) :
    readText? (escape c ++ cs) = prepend c (readText? cs) := by
  rw [escape]
  -- the seven characters that are escaped by a sign of their own
  iterate 7
    split
    · rename_i h
      rw [h]
      rfl
  split
  · rename_i hcontrol
    have hunit := codeUnit?_hexDigit ⟨c.toNat, hcontrol⟩
    have hsmall : c.toNat < 0xD800 := Nat.lt_trans hcontrol (by decide)
    dsimp only [List.cons_append, List.nil_append]
    rw [readText?, hunit]
    dsimp only
    rw [if_pos (.inl hsmall), Char.ofNat_toNat]
  · rename_i hquote hbackslash _ _ _ _ _ hcontrol
    rw [List.singleton_append, readText?, if_neg hcontrol]
    · exact hquote
    · exact fun _ _ _ _ _ h _ => hbackslash h
    · exact fun _ _ h _ => hbackslash h

/-- The characters of a text are read up to the quote after them. -/
theorem readText?_flatMap_escape (text more : List Char) :
    readText? (text.flatMap escape ++ '\x22' :: more) = some (text, more) := by
  induction text with
  | nil => rfl
  | cons c rest ih => rw [List.flatMap_cons, List.append_assoc, readText?_escape, ih]; rfl

/-! ### Numbers -/

theorem isDigit_of_mem_toDigits {c : Char} {n : Nat} (h : c ∈ Nat.toDigits 10 n) :
    c.isDigit = true :=
  Nat.isDigit_of_mem_toDigits (by decide) (by decide) h

theorem exists_digit (n : Nat) : ∃ d rest, Nat.toDigits 10 n = d :: rest ∧ d.isDigit = true := by
  cases h : Nat.toDigits 10 n with
  | nil => exact absurd h Nat.toDigits_ne_nil
  | cons d rest => exact ⟨d, rest, rfl, isDigit_of_mem_toDigits (h ▸ List.mem_cons_self)⟩

/-- The decimal digits of a number do not begin with a zero, that of zero apart. -/
theorem exists_toDigits {n : Nat} (h : n ≠ 0) :
    ∃ d rest, Nat.toDigits 10 n = d :: rest ∧ d ≠ '0' := by
  induction n using Nat.strongRecOn with
  | ind n ih =>
    by_cases hsmall : n < 10
    · have hdigit : ∀ m : Fin 10, m.val ≠ 0 → Nat.digitChar m ≠ '0' := by decide
      exact ⟨_, [], Nat.toDigits_of_lt_base hsmall, hdigit ⟨n, hsmall⟩ h⟩
    · obtain ⟨d, rest, hdigits, hd⟩ := ih (n / 10) (by omega) (by omega)
      exact ⟨d, _, by rw [Nat.toDigits_of_base_le (by decide) (by omega), hdigits]; rfl, hd⟩

/-- Digits are all taken into the significand where the number that they denote fits. -/
theorem extend_of_lt {digits : List Char} (h : ∀ c ∈ digits, c.isDigit = true) {start : Nat}
    (fits : Nat.ofDigitChars 10 digits start < Nat.pow 2 64) :
    extend start digits = (Nat.ofDigitChars 10 digits start, 0) := by
  induction digits generalizing start with
  | nil => rfl
  | cons d rest ih =>
    have hd : Numeral.digitValue d = d.toNat - '0'.toNat :=
      Numeral.digitValue_of_isDigit (h d List.mem_cons_self)
    have hrest : ∀ c ∈ rest, c.isDigit = true := fun c hc => h c (List.mem_cons_of_mem _ hc)
    rw [Nat.ofDigitChars_cons, Nat.mul_comm, ← hd] at fits ⊢
    have hstart : start * 10 + Numeral.digitValue d < Nat.pow 2 64 := by
      refine Nat.lt_of_le_of_lt ?_ fits
      rw [Nat.ofDigitChars_eq_ofDigitChars_zero]
      exact Nat.le_trans (Nat.le_mul_of_pos_left _ (Nat.pow_pos (by decide))) (Nat.le_add_right ..)
    rw [extend, if_pos hstart, ih hrest fits]

variable {more : List Char}

theorem splitDigits_of_isDigit {digits : List Char} (h : ∀ c ∈ digits, c.isDigit = true) :
    splitDigits digits = (digits, []) := by
  induction digits with
  | nil => rfl
  | cons d rest ih => simp_all [splitDigits]

theorem readWhole?_toDigits (n : Nat) :
    readWhole? (Nat.toDigits 10 n) = some (Nat.toDigits 10 n, []) := by
  rw [readWhole?, splitDigits_of_isDigit fun c => isDigit_of_mem_toDigits]
  by_cases hn : n = 0
  · rw [hn]
    rfl
  · obtain ⟨d, rest, hd, hzero⟩ := exists_toDigits hn
    rw [hd]
    exact if_neg fun h => hzero h.1

/-- An integer that is kept as one has a magnitude of 64 bits. -/
theorem lt_of_integer?_eq_some {negative : Bool} {n : Nat} {a : Atom}
    (h : integer? negative n = some a) : n < Nat.pow 2 64 := by
  rw [integer?] at h
  cases negative with
  | false => exact (Option.ite_none_right_eq_some.1 h).1
  | true => exact Nat.lt_of_le_of_lt (Option.ite_none_right_eq_some.1 h).1.2 (by decide)

theorem number?_toDigits {negative : Bool} {n : Nat} {a : Atom} (h : integer? negative n = some a) :
    number? negative (Nat.toDigits 10 n) [] none = some a := by
  have hdigits : ∀ c ∈ Nat.toDigits 10 n, c.isDigit = true := fun c => isDigit_of_mem_toDigits
  have hvalue : Nat.ofDigitChars 10 (Nat.toDigits 10 n) 0 = n := Nat.ofDigitChars_ten_toDigits
  have hextend := extend_of_lt hdigits (hvalue.symm ▸ lt_of_integer?_eq_some h)
  rw [hvalue] at hextend
  rw [number?, hextend]
  dsimp only
  rw [if_pos ⟨rfl, rfl, rfl⟩, h]

/-- An integer is read up to where its digits end. -/
theorem readNumber?_toDigits (ends : Ends more) {negative : Bool} {n : Nat} {a : Atom}
    (h : number? negative (Nat.toDigits 10 n) [] none = some a) :
    readNumber? ((if negative then ['-'] else []) ++ Nat.toDigits 10 n ++ more) =
      some (a, more) := by
  have hread : readNumber? ((if negative then ['-'] else []) ++ Nat.toDigits 10 n) = some (a, []) :=
    readNumber?_eq_some.2
      ⟨negative, _, _, _, _, _, _, rfl, readWhole?_toDigits n, rfl, rfl, h⟩
  exact readNumber?_append hread (ends.apart [])

/-! ### Tokens -/

/-- Atoms that are written so that they can be read: no binary64, and only integers below zero as
negative ones. -/
def Atom.Readable : Atom → Prop
  | .float _ => False
  | .negative n => n < 0
  | _ => True

theorem integer?_natural (n : UInt64) : integer? false n.toNat = some (.natural n) := by
  have hsize : n.toNat < Nat.pow 2 64 := n.toNat_lt
  rw [integer?, if_neg Bool.false_ne_true, if_pos hsize, UInt64.ofNat_toNat]

theorem integer?_negative {n : Int64} (h : n < 0) :
    integer? true n.toInt.natAbs = some (.negative n) := by
  have hneg : n.toInt < 0 := Int64.lt_iff_toInt_lt.1 h
  have hlow : -2 ^ 63 ≤ n.toInt := n.le_toInt
  have hpower : Nat.pow 2 63 = 2 ^ 63 := rfl
  have habs : -(n.toInt.natAbs : Int) = n.toInt := by omega
  rw [integer?, if_pos rfl, if_pos (by omega), habs, Int64.ofInt_toInt]

theorem readToken?_integer (ends : Ends more) {negative : Bool} {n : Nat} {a : Atom}
    (h : number? negative (Nat.toDigits 10 n) [] none = some a) :
    readToken? ((if negative then ['-'] else []) ++ Nat.toDigits 10 n ++ more) =
      some (.atom a, more) := by
  have hnumber := readNumber?_toDigits ends h
  obtain ⟨d, digits, hd, hdigit⟩ := exists_digit n
  cases negative with
  | true =>
    rw [if_pos rfl, List.singleton_append, List.cons_append] at hnumber ⊢
    rw [readToken?_of_number (.inl rfl), hnumber]
    rfl
  | false =>
    rw [if_neg Bool.false_ne_true, List.nil_append, hd, List.cons_append] at hnumber ⊢
    rw [readToken?_of_number (.inr hdigit), hnumber]
    rfl

def Token.Readable : Token → Prop
  | .atom a => a.Readable
  | _ => True

/-- A token is read up to where its text ends. -/
theorem readToken?_spell {token : Token} (readable : token.Readable)
    (ends : token.isAtom = true → Ends more) :
    readToken? (token.spell ++ more) = some (token, more) := by
  cases token with
  | atom a => cases a with
    | null => rfl
    | bool b => cases b <;> rfl
    | natural n => exact readToken?_integer (ends rfl) (number?_toDigits (integer?_natural n))
    | negative n =>
      exact readToken?_integer (ends rfl) (number?_toDigits (integer?_negative readable))
    | float x => exact readable.elim
    | text s =>
      have htext := readText?_flatMap_escape s.toList more
      rw [Token.spell, Atom.spell, quote, List.append_assoc, List.cons_append,
        List.singleton_append, readToken?, htext, Option.map_some]
      dsimp only
      rw [String.ofList_toList]
  | _ => rfl

/-! ### Rows of tokens -/

/-- A row that can be read again from its text: atoms that can, with a sign between any two. -/
inductive Lexable : List Token → Prop where
  | nil : Lexable []
  | cons {token : Token} {rest : List Token} (readable : token.Readable)
    (apart : token.isAtom = true → ∀ next ∈ rest.head?, next.isAtom = false)
    (rest_lexable : Lexable rest) : Lexable (token :: rest)

/-- A layout that has only blanks between the tokens. -/
structure Layout.IsBlank (layout : Layout) : Prop where
  line : ∀ depth, Blank (layout.line depth)
  gap : Blank layout.gap

variable {layout : Layout} {row : List Token}

theorem blank_nil : Blank [] := fun _ mem => absurd mem List.not_mem_nil

theorem compact_isBlank : Layout.compact.IsBlank where
  line _ := blank_nil
  gap := blank_nil

theorem pretty_isBlank : Layout.pretty.IsBlank where
  line depth := by
    intro c mem
    rcases List.mem_cons.1 mem with rfl | mem
    · rfl
    · rw [List.eq_of_mem_replicate mem]
      rfl
  gap c mem := by
    rw [List.mem_singleton.1 mem]
    rfl

/-- The first token of a row is written between blanks, and then the rest is. -/
theorem exists_spell_cons (blank : layout.IsBlank) (depth : Nat) (opened : Bool) (token : Token)
    (rest : List Token) : ∃ before after depth' opened', Blank before ∧ Blank after ∧
      spell layout depth opened (token :: rest) =
        before ++ (token.spell ++ (after ++ spell layout depth' opened' rest)) := by
  have hline (depth : Nat) : Blank (if opened then [] else layout.line depth) ∧
      Blank (if opened then layout.line depth else []) := by
    cases opened with
    | true => exact ⟨blank_nil, blank.line depth⟩
    | false => exact ⟨blank.line depth, blank_nil⟩
  have hassoc (before spelled after rest : List Char) :
      before ++ spelled ++ after ++ rest = before ++ (spelled ++ (after ++ rest)) := by
    simp only [List.append_assoc]
  cases token with
  | closeArray | closeObject =>
    exact ⟨_, [], _, _, (hline (depth - 1)).1, blank_nil, List.append_assoc ..⟩
  | comma => exact ⟨_, _, _, _, (hline depth).2, blank.line depth, hassoc ..⟩
  | colon => exact ⟨_, _, _, _, (hline depth).2, blank.gap, hassoc ..⟩
  | _ => exact ⟨_, [], _, _, (hline depth).2, blank_nil, hassoc ..⟩

/-- What begins with a sign, or not at all, does not go on with an atom. -/
theorem ends_spell (blank : layout.IsBlank) (h : ∀ token ∈ row.head?, token.isAtom = false)
    (depth : Nat) (opened : Bool) : Ends (spell layout depth opened row) := by
  cases row with
  | nil => rintro c ⟨⟩
  | cons token rest =>
    obtain ⟨before, after, _, _, hbefore, -, hspell⟩ :=
      exists_spell_cons blank depth opened token rest
    rw [hspell]
    refine .append hbefore ?_
    have htoken := h token rfl
    cases token with
    | atom a => cases htoken
    | _ =>
      rintro c ⟨⟩
      decide

/-- The text of a row is cut into that row again. -/
theorem lexFrom_spell (blank : layout.IsBlank) (h : Lexable row) (depth : Nat) (opened : Bool)
    {fuel : Nat} (hfuel : row.length ≤ fuel) :
    lexFrom fuel (spell layout depth opened row) = some row := by
  induction h generalizing depth opened fuel with
  | nil => cases fuel <;> rfl
  | @cons token rest readable apart _ ih =>
    obtain ⟨fuel, rfl⟩ := Nat.exists_eq_add_of_le' (Nat.le_trans (Nat.le_add_left 1 _) hfuel)
    obtain ⟨before, after, depth', opened', hbefore, hafter, hspell⟩ :=
      exists_spell_cons blank depth opened token rest
    have hread := readToken?_spell readable fun hatom =>
      (ends_spell blank (apart hatom) depth' opened').append hafter
    rw [hspell, lexFrom_of_blank hbefore, lexFrom_of_readToken? hread, lexFrom_of_blank hafter,
      ih depth' opened' (Nat.le_of_succ_le_succ hfuel), Option.map_some]

/-- No token is written as nothing. -/
theorem length_le_spell (blank : layout.IsBlank) (h : Lexable row) (depth : Nat) (opened : Bool) :
    row.length ≤ (spell layout depth opened row).length := by
  induction h generalizing depth opened with
  | nil => exact Nat.le_refl 0
  | @cons token rest readable _ _ ih =>
    obtain ⟨before, after, depth', opened', -, -, hspell⟩ :=
      exists_spell_cons blank depth opened token rest
    have hlength := ih depth' opened'
    have htoken : token.spell ≠ [] := by
      intro hnil
      have hends : Ends [] := by rintro c ⟨⟩
      have hread : readToken? (token.spell ++ []) = some (token, []) :=
        readToken?_spell readable fun _ => hends
      rw [hnil] at hread
      cases hread
    have hpos := List.length_pos_iff.2 htoken
    rw [hspell]
    simp only [List.length_append, List.length_cons]
    omega

theorem lex_write (blank : layout.IsBlank) (h : Lexable row) :
    lex (write layout row).toList = some row := by
  rw [lex, write, String.toList_ofList]
  exact lexFrom_spell blank h 0 false (length_le_spell blank h 0 false)

end DocPath.Json
