import DocPath.Json.Lexer

/-!
# Cutting JSON text is local

A token ends where its text does, whatever follows: the brackets, the words and the texts in quotes
always, and a number unless it goes on (`readToken?_append`). So a text that is cut and another one
behind it are cut one after the other (`lex_append`). Fuel as long as the text is enough, since a
token is never read from nothing (`length_lt_of_readToken?`).
-/

namespace DocPath.Json

variable {cs rest more : List Char}

/-! ### Texts in quotes -/

theorem prepend_eq_some {c : Char} {result : Option (List Char × List Char)} {s : List Char} :
    prepend c result = some (s, rest) ↔ ∃ text, result = some (text, rest) ∧ s = c :: text := by
  rw [prepend, Option.map_eq_some_iff]
  constructor
  · rintro ⟨⟨text, rest⟩, rfl, ⟨⟩⟩
    exact ⟨text, rfl, rfl⟩
  · rintro ⟨text, rfl, rfl⟩
    exact ⟨_, rfl, rfl⟩

/-- A text ends at its quote, whatever follows. -/
theorem readText?_append {s : List Char} (more : List Char) (h : readText? cs = some (s, rest)) :
    readText? (cs ++ more) = some (s, rest ++ more) := by
  fun_induction readText? cs generalizing s rest with
  | case2 tail =>
    cases h
    rfl
  | case4 a b c d tail unit hunit hplain ih =>
    obtain ⟨text, htext, rfl⟩ := prepend_eq_some.1 h
    simp only [List.cons_append, readText?, hunit, if_pos hplain, ih htext]
    rfl
  | case8 a b c d unit hunit hplain hlow e f g k tail low hlower hrange ih =>
    obtain ⟨text, htext, rfl⟩ := prepend_eq_some.1 h
    simp only [List.cons_append, readText?, hunit, if_neg hplain, if_neg hlow, hlower,
      if_neg hrange, ih htext]
    rfl
  | case11 c tail hother x hescape ih =>
    obtain ⟨text, htext, rfl⟩ := prepend_eq_some.1 h
    have hu : c ≠ 'u' := by
      rintro rfl
      cases hescape
    rw [List.cons_append, List.cons_append, readText?, hescape]
    · simp only [ih htext]
      rfl
    · exact fun _ _ _ _ _ h _ => hu h
  | case13 c tail hquote hunit hescape hcontrol ih =>
    obtain ⟨text, htext, rfl⟩ := prepend_eq_some.1 h
    have hbackslash : c ≠ '\\' := by
      rintro rfl
      cases tail with
      | nil => cases htext
      | cons d tail => exact hescape d tail rfl rfl
    rw [List.cons_append, readText?, if_neg hcontrol, ih htext]
    · rfl
    · exact hquote
    · exact fun _ _ _ _ _ h _ => hbackslash h
    · exact fun _ _ h _ => hbackslash h
  | _ => cases h

/-- What is left after a text is shorter than what it was read from. -/
theorem length_lt_of_readText? {s : List Char} (h : readText? cs = some (s, rest)) :
    rest.length < cs.length := by
  fun_induction readText? cs generalizing s with
  | case2 tail =>
    cases h
    exact Nat.lt_succ_self _
  | case4 a b c d tail unit hunit hplain ih =>
    obtain ⟨text, htext, -⟩ := prepend_eq_some.1 h
    exact Nat.lt_add_right 6 (ih htext)
  | case8 a b c d unit hunit hplain hlow e f g k tail low hlower hrange ih =>
    obtain ⟨text, htext, -⟩ := prepend_eq_some.1 h
    exact Nat.lt_add_right 12 (ih htext)
  | case11 c tail hother x hescape ih =>
    obtain ⟨text, htext, -⟩ := prepend_eq_some.1 h
    exact Nat.lt_add_right 2 (ih htext)
  | case13 c tail hquote hunit hescape hcontrol ih =>
    obtain ⟨text, htext, -⟩ := prepend_eq_some.1 h
    exact Nat.lt_add_right 1 (ih htext)
  | _ => cases h

/-! ### Numbers -/

/-- Characters with which a number can go on. -/
def isNumeric (c : Char) : Bool := c.isDigit || c == '.' || c == 'e' || c == 'E'

/-- What follows does not go on with a number that left so much of its text. -/
def Apart (rest more : List Char) : Prop := rest ≠ [] ∨ ∀ c ∈ more.head?, isNumeric c = false

theorem not_isDigit_of_isNumeric {c : Char} (h : isNumeric c = false) :
    c.isDigit = false ∧ c ≠ '.' ∧ ¬(c = 'e' ∨ c = 'E') := by
  simpa [isNumeric, and_assoc] using h

theorem splitDigits_append {digits : List Char} (h : splitDigits cs = (digits, rest))
    (apart : Apart rest more) : splitDigits (cs ++ more) = (digits, rest ++ more) := by
  obtain ⟨rfl, rfl⟩ := Prod.mk.inj h
  clear h
  induction cs with
  | nil =>
    have hmore := apart.resolve_left fun h => h rfl
    cases more with
    | nil => rfl
    | cons c rest =>
      have hc := (not_isDigit_of_isNumeric (hmore c rfl)).1
      simp [splitDigits, hc]
  | cons c tail ih =>
    cases hc : c.isDigit with
    | false => simp [splitDigits, hc]
    | true =>
      rw [List.dropWhile_cons_of_pos hc] at apart ⊢
      obtain ⟨htake, hdrop⟩ := Prod.mk.inj (ih apart)
      rw [List.cons_append, splitDigits, List.takeWhile_cons_of_pos hc,
        List.dropWhile_cons_of_pos hc, List.takeWhile_cons_of_pos hc, htake, hdrop]

theorem readWhole?_append {digits : List Char} (h : readWhole? cs = some (digits, rest))
    (apart : Apart rest more) : readWhole? (cs ++ more) = some (digits, rest ++ more) := by
  revert h
  fun_cases readWhole? cs with
  | case3 left d tail hzero hsplit =>
    rintro ⟨⟩
    rw [readWhole?, splitDigits_append hsplit apart]
    exact if_neg hzero
  | _ =>
    intro h
    cases h

theorem readFraction?_append {digits : List Char} (h : readFraction? cs = some (digits, rest))
    (apart : Apart rest more) : readFraction? (cs ++ more) = some (digits, rest ++ more) := by
  revert h
  fun_cases readFraction? cs with
  | case1 =>
    intro h
    cases h
  | case2 tail digits left hsplit hdigits =>
    rintro ⟨⟩
    rw [List.cons_append, readFraction?, splitDigits_append hsplit apart]
    exact if_neg hdigits
  | case3 _ hpoint =>
    rintro ⟨⟩
    rw [readFraction?]
    intro tail heq
    cases cs with
    | nil =>
      obtain rfl : more = '.' :: tail := heq
      exact absurd (apart.resolve_left (fun hne => hne rfl) '.' rfl) (by decide)
    | cons c left => exact hpoint left (by rw [(List.cons.inj heq).1])

/-- After an exponent's sign there is a digit, so the sign is there. -/
theorem splitSign_append {negative : Bool} {digits : List Char}
    (h : Numeral.splitSign cs = (negative, digits)) (hne : digits ≠ []) (more : List Char) :
    Numeral.splitSign (cs ++ more) = (negative, digits ++ more) := by
  revert h
  fun_cases Numeral.splitSign cs with
  | case1 tail | case2 tail =>
    rintro ⟨⟩
    rfl
  | case3 _ hminus hplus =>
    rintro ⟨⟩
    obtain ⟨c, tail, rfl⟩ := List.exists_cons_of_ne_nil hne
    rw [Numeral.splitSign]
    · exact fun _ heq => hminus tail (by rw [(List.cons.inj heq).1])
    · exact fun _ heq => hplus tail (by rw [(List.cons.inj heq).1])

theorem readExponent?_append {exponent : Option Int} (h : readExponent? cs = some (exponent, rest))
    (apart : Apart rest more) : readExponent? (cs ++ more) = some (exponent, rest ++ more) := by
  revert h
  fun_cases readExponent? cs with
  | case1 =>
    rintro ⟨⟩
    cases more with
    | nil => rfl
    | cons c tail =>
      exact if_neg (not_isDigit_of_isNumeric (apart.resolve_left (fun hne => hne rfl) c rfl)).2.2
  | case2 e tail he negative body hsign digits left hsplit n hn =>
    rintro ⟨⟩
    have hbody : body ≠ [] := by
      rintro rfl
      cases hsplit
      cases hn
    rw [List.cons_append, readExponent?]
    simp only [if_pos he, splitSign_append hsign hbody, splitDigits_append hsplit apart, hn]
  | case3 =>
    intro h
    cases h
  | case4 e tail he =>
    rintro ⟨⟩
    exact if_neg he

theorem length_splitDigits {digits : List Char} (h : splitDigits cs = (digits, rest)) :
    cs.length = digits.length + rest.length := by
  obtain ⟨rfl, rfl⟩ := Prod.mk.inj h
  rw [← List.length_append, List.takeWhile_append_dropWhile]

/-- A number is what is left of a text without its sign, in three parts. -/
theorem readNumber?_eq_some {a : Atom} : readNumber? cs = some (a, rest) ↔
    ∃ negative body whole left fraction left' exponent,
      cs = (if negative then ['-'] else []) ++ body ∧ readWhole? body = some (whole, left) ∧
      readFraction? left = some (fraction, left') ∧ readExponent? left' = some (exponent, rest) ∧
      number? negative whole fraction exponent = some a := by
  constructor
  · fun_cases readNumber? cs with
    | case4 negative body hsign whole left hwhole fraction left' hfraction exponent _ hexponent =>
      intro h
      obtain ⟨a, hnumber, ⟨⟩⟩ := Option.map_eq_some_iff.1 h
      have hcs : cs = (if negative then ['-'] else []) ++ body := by
        split at hsign <;> (cases hsign; rfl)
      exact ⟨_, _, _, _, _, _, _, hcs, hwhole, hfraction, hexponent, hnumber⟩
    | _ =>
      intro h
      cases h
  · rintro ⟨negative, body, whole, left, fraction, left', exponent, rfl, hwhole, hfraction,
      hexponent, hnumber⟩
    cases negative with
    | true =>
      rw [if_pos rfl, List.singleton_append, readNumber?]
      simp only [hwhole, hfraction, hexponent, hnumber, Option.map_some]
    | false =>
      rw [if_neg Bool.false_ne_true, List.nil_append, readNumber?]
      · simp only [hwhole, hfraction, hexponent, hnumber, Option.map_some]
      · rintro tail rfl
        cases hwhole

theorem readNumber?_append {a : Atom} (h : readNumber? cs = some (a, rest))
    (apart : Apart rest more) : readNumber? (cs ++ more) = some (a, rest ++ more) := by
  obtain ⟨negative, body, whole, left, fraction, left', exponent, rfl, hwhole, hfraction,
    hexponent, hnumber⟩ := readNumber?_eq_some.1 h
  -- where nothing is left of the text, nothing was left at the parts before
  have apart' : Apart left' more := apart.imp_left fun hrest => by
    rintro rfl
    cases hexponent
    exact hrest rfl
  have apart'' : Apart left more := apart'.imp_left fun hrest => by
    rintro rfl
    cases hfraction
    exact hrest rfl
  exact readNumber?_eq_some.2 ⟨_, _, _, _, _, _, _, List.append_assoc ..,
    readWhole?_append hwhole apart'', readFraction?_append hfraction apart',
    readExponent?_append hexponent apart, hnumber⟩

theorem length_lt_of_readWhole? {digits : List Char} (h : readWhole? cs = some (digits, rest)) :
    rest.length < cs.length := by
  revert h
  fun_cases readWhole? cs with
  | case3 left d tail hzero hsplit =>
    rintro ⟨⟩
    rw [length_splitDigits hsplit]
    exact Nat.lt_add_of_pos_left (Nat.succ_pos _)
  | _ =>
    intro h
    cases h

theorem length_le_of_readFraction? {digits : List Char}
    (h : readFraction? cs = some (digits, rest)) : rest.length ≤ cs.length := by
  revert h
  fun_cases readFraction? cs with
  | case1 =>
    intro h
    cases h
  | case2 tail digits left hsplit hdigits =>
    rintro ⟨⟩
    rw [List.length_cons, length_splitDigits hsplit]
    omega
  | case3 =>
    rintro ⟨⟩
    exact Nat.le_refl _

theorem length_le_of_splitSign {negative : Bool} (h : Numeral.splitSign cs = (negative, rest)) :
    rest.length ≤ cs.length := by
  revert h
  fun_cases Numeral.splitSign cs <;> (rintro ⟨⟩; simp)

theorem length_le_of_readExponent? {exponent : Option Int}
    (h : readExponent? cs = some (exponent, rest)) : rest.length ≤ cs.length := by
  revert h
  fun_cases readExponent? cs with
  | case2 e tail he negative body hsign digits left hsplit n hn =>
    rintro ⟨⟩
    have hbody := length_le_of_splitSign hsign
    rw [length_splitDigits hsplit] at hbody
    rw [List.length_cons]
    omega
  | case3 =>
    intro h
    cases h
  | _ =>
    rintro ⟨⟩
    exact Nat.le_refl _

theorem length_lt_of_readNumber? {a : Atom} (h : readNumber? cs = some (a, rest)) :
    rest.length < cs.length := by
  obtain ⟨negative, body, whole, left, fraction, left', exponent, rfl, hwhole, hfraction,
    hexponent, -⟩ := readNumber?_eq_some.1 h
  have hlength := length_lt_of_readWhole? hwhole
  have hlength' := length_le_of_readFraction? hfraction
  have hlength'' := length_le_of_readExponent? hexponent
  rw [List.length_append]
  omega

theorem head_of_readNumber? {c : Char} {tail : List Char} {a : Atom}
    (h : readNumber? (c :: tail) = some (a, rest)) : c = '-' ∨ c.isDigit = true := by
  obtain ⟨negative, body, whole, left, -, -, -, hcs, hwhole, -⟩ := readNumber?_eq_some.1 h
  cases negative with
  | true => exact .inl (List.cons.inj hcs).1
  | false =>
    rw [if_neg Bool.false_ne_true, List.nil_append] at hcs
    refine .inr (Bool.of_not_eq_false fun hc => ?_)
    rw [← hcs, readWhole?, splitDigits, List.takeWhile_cons_of_neg (by simp [hc])] at hwhole
    cases hwhole

/-! ### Tokens -/

def Token.isAtom : Token → Bool
  | .atom _ => true
  | _ => false

/-- The characters with which the tokens begin that are no numbers. -/
def heads : List Char := ['n', 't', 'f', '\x22', '[', ']', '\x7b', '\x7d', ',', ':']

theorem not_number_of_mem_heads {c : Char} (h : c ∈ heads) : ¬(c = '-' ∨ c.isDigit = true) := by
  have hall : heads.all (fun c => c != '-' && !c.isDigit) = true := rfl
  simpa using List.all_eq_true.1 hall c h

/-- A number begins with a character with which no other token does. -/
theorem readToken?_of_number {c : Char} (h : c = '-' ∨ c.isDigit = true) (rest : List Char) :
    readToken? (c :: rest) = (readNumber? (c :: rest)).map fun (a, rest) => (.atom a, rest) := by
  have hne : ∀ d ∈ heads, c ≠ d := fun d hd e => not_number_of_mem_heads hd (e ▸ h)
  have hsign : sign? c = none := by
    simp only [heads, List.forall_mem_cons] at hne
    simp [sign?, hne]
  rw [readToken?, hsign]
  · exact fun _ e _ => hne 'n' (by decide) e
  · exact fun _ e _ => hne 't' (by decide) e
  · exact fun _ e _ => hne 'f' (by decide) e
  · exact hne '\x22' (by decide)

theorem readToken?_of_sign {c : Char} {token : Token} (h : sign? c = some token)
    (rest : List Char) : readToken? (c :: rest) = some (token, rest) := by
  have hne : ∀ d ∈ ['n', 't', 'f', '\x22'], c ≠ d := by
    rintro d hd rfl
    simp only [List.mem_cons, List.not_mem_nil, or_false] at hd
    rcases hd with rfl | rfl | rfl | rfl <;> cases h
  rw [readToken?, h]
  · exact fun _ e _ => hne 'n' (by decide) e
  · exact fun _ e _ => hne 't' (by decide) e
  · exact fun _ e _ => hne 'f' (by decide) e
  · exact hne '\x22' (by decide)

theorem readToken?_append {token : Token} (h : readToken? cs = some (token, rest))
    (apart : token.isAtom = true → Apart rest more) :
    readToken? (cs ++ more) = some (token, rest ++ more) := by
  revert h
  fun_cases readToken? cs with
  | case1 =>
    intro h
    cases h
  | case2 tail | case3 tail | case4 tail =>
    rintro ⟨⟩
    rfl
  | case5 tail =>
    intro h
    obtain ⟨⟨s, left⟩, htext, ⟨⟩⟩ := Option.map_eq_some_iff.1 h
    rw [List.cons_append, readToken?, readText?_append more htext]
    rfl
  | case6 c tail token _ _ _ _ hsign =>
    rintro ⟨⟩
    exact readToken?_of_sign hsign _
  | case7 c tail =>
    intro h
    obtain ⟨⟨a, left⟩, hnumber, ⟨⟩⟩ := Option.map_eq_some_iff.1 h
    have hread := readNumber?_append hnumber (apart rfl)
    rw [List.cons_append] at hread ⊢
    rw [readToken?_of_number (head_of_readNumber? hnumber), hread]
    rfl

theorem length_lt_of_readToken? {token : Token} (h : readToken? cs = some (token, rest)) :
    rest.length < cs.length := by
  revert h
  fun_cases readToken? cs with
  | case1 =>
    intro h
    cases h
  | case2 tail | case3 tail | case4 tail =>
    rintro ⟨⟩
    simp only [List.length_cons]
    omega
  | case5 tail =>
    intro h
    obtain ⟨⟨s, left⟩, htext, ⟨⟩⟩ := Option.map_eq_some_iff.1 h
    exact Nat.lt_succ_of_lt (length_lt_of_readText? htext)
  | case6 c tail =>
    rintro ⟨⟩
    exact Nat.lt_succ_self _
  | case7 c tail =>
    intro h
    obtain ⟨⟨a, left⟩, hnumber, ⟨⟩⟩ := Option.map_eq_some_iff.1 h
    exact length_lt_of_readNumber? hnumber

/-! ### Rows -/

/-- Nothing but blanks. -/
def Blank (cs : List Char) : Prop := ∀ c ∈ cs, isBlank c = true

theorem lexFrom_of_blank {blanks : List Char} (h : Blank blanks) (fuel : Nat) (cs : List Char) :
    lexFrom fuel (blanks ++ cs) = lexFrom fuel cs := by
  cases fuel <;> rw [lexFrom, lexFrom, List.dropWhile_append_of_pos h]

/-- No token begins with a blank. -/
theorem readToken?_blank {c : Char} (h : isBlank c = true) (rest : List Char) :
    readToken? (c :: rest) = none := by
  simp only [isBlank, Bool.or_eq_true, decide_eq_true_eq] at h
  rcases h with ((rfl | rfl) | rfl) | rfl <;> rfl

theorem lexFrom_of_readToken? {cs : List Char} {token : Token}
    (h : readToken? cs = some (token, more)) (fuel : Nat) :
    lexFrom (fuel + 1) cs = (lexFrom fuel more).map (token :: ·) := by
  cases cs with
  | nil => cases h
  | cons c rest =>
    have hblank : ¬isBlank c = true := by
      intro hblank
      rw [readToken?_blank hblank] at h
      cases h
    rw [lexFrom, List.dropWhile_cons_of_neg hblank]
    dsimp only
    rw [h]

/-- Fuel as long as the text is enough. -/
theorem lexFrom_congr {fuel other : Nat} (h : cs.length ≤ fuel) (h' : cs.length ≤ other) :
    lexFrom fuel cs = lexFrom other cs := by
  induction fuel generalizing cs other with
  | zero =>
    rw [List.length_eq_zero_iff.1 (Nat.le_zero.1 h)]
    cases other <;> rfl
  | succ fuel ih => cases other with
    | zero =>
      rw [List.length_eq_zero_iff.1 (Nat.le_zero.1 h')]
      rfl
    | succ other =>
      have hdrop := (List.dropWhile_sublist isBlank (l := cs)).length_le
      rw [lexFrom, lexFrom]
      cases htail : cs.dropWhile isBlank with
      | nil => rfl
      | cons c tail =>
        rw [htail] at hdrop
        dsimp only
        cases hread : readToken? (c :: tail) with
        | none => rfl
        | some read =>
          have hlength := length_lt_of_readToken? hread
          have hrest : lexFrom fuel read.2 = lexFrom other read.2 := ih (by omega) (by omega)
          dsimp only
          rw [hrest]

theorem lexFrom_of_length_le {fuel : Nat} (h : cs.length ≤ fuel) : lexFrom fuel cs = lex cs :=
  lexFrom_congr h (Nat.le_refl _)

theorem lex_of_blank {blanks : List Char} (h : Blank blanks) (cs : List Char) :
    lex (blanks ++ cs) = lex cs := by
  have hlength : cs.length ≤ (blanks ++ cs).length := by simp
  rw [lex, lexFrom_of_blank h, lexFrom_of_length_le hlength]

theorem lex_of_readToken? {token : Token} (h : readToken? cs = some (token, rest)) :
    lex cs = (lex rest).map (token :: ·) := by
  have hlength := length_lt_of_readToken? h
  rw [← lexFrom_of_length_le (Nat.le_succ _), lexFrom_of_readToken? h,
    lexFrom_of_length_le (Nat.le_of_lt hlength)]

/-- A text that is cut is nothing but blanks, or blanks, a token and a text that is cut. -/
theorem lex_cases {row : List Token} (h : lex cs = some row) : Blank cs ∧ row = [] ∨
    ∃ blanks tail token rest row', Blank blanks ∧ readToken? tail = some (token, rest) ∧
      lex rest = some row' ∧ cs = blanks ++ tail ∧ row = token :: row' := by
  have hblank : Blank (cs.takeWhile isBlank) := List.all_eq_true.1 List.all_takeWhile
  have hcs := List.takeWhile_append_dropWhile (p := isBlank) (l := cs)
  rw [← hcs, lex_of_blank hblank] at h
  cases htail : cs.dropWhile isBlank with
  | nil =>
    rw [htail] at h hcs
    rw [List.append_nil] at hcs
    cases h
    exact .inl ⟨hcs ▸ hblank, rfl⟩
  | cons c tail =>
    have hc : isBlank c = false := by
      have := List.head_dropWhile_not isBlank (l := cs) (by simp [htail])
      simpa [htail] using this
    cases hread : readToken? (c :: tail) with
    | none =>
      rw [htail, lex, List.length_cons, lexFrom, List.dropWhile_cons_of_neg (by simp [hc])] at h
      dsimp only at h
      rw [hread] at h
      cases h
    | some read =>
      rw [htail, lex_of_readToken? hread] at h
      obtain ⟨row', hrow, rfl⟩ := Option.map_eq_some_iff.1 h
      exact .inr ⟨_, _, _, _, _, hblank, hread, hrow, htail ▸ hcs.symm, rfl⟩

/-- Texts one after the other are cut one after the other, unless a number at the end of the first
one goes on in the second one. -/
theorem lex_append {row : List Token} (h : lex cs = some row)
    (apart : ∀ token ∈ row.getLast?, token.isAtom = true → ∀ c ∈ more.head?, isNumeric c = false) :
    lex (cs ++ more) = (lex more).map (row ++ ·) := by
  induction row generalizing cs with
  | nil =>
    obtain ⟨hblank, -⟩ | ⟨_, _, _, _, _, -, -, -, -, hrow⟩ := lex_cases h
    · rw [lex_of_blank hblank]
      exact (Option.map_id' : (lex more).map id = lex more).symm
    · cases hrow
  | cons token row ih =>
    obtain ⟨-, hrow⟩ | ⟨blanks, tail, _, rest, _, hblank, hread, hrest, rfl, ⟨⟩⟩ := lex_cases h
    · cases hrow
    have apart' : token.isAtom = true → Apart rest more := by
      intro hatom
      cases rest with
      | nil =>
        cases hrest
        exact .inr (apart token rfl hatom)
      | cons c tail => exact .inl (List.cons_ne_nil c tail)
    have hrow : ∀ last ∈ row.getLast?, last.isAtom = true →
        ∀ c ∈ more.head?, isNumeric c = false := by
      intro last hlast
      refine apart last ?_
      rw [List.getLast?_cons, hlast]
      rfl
    rw [List.append_assoc, lex_of_blank hblank, lex_of_readToken? (readToken?_append hread apart'),
      ih hrest hrow, Option.map_map]
    rfl

/-! ### What stands after an atom -/

/-- The characters that can stand right after an atom. -/
def delimiters : List Char := [' ', '\t', '\n', '\r', '[', ']', '\x7b', '\x7d', ',', ':']

/-- What follows does not go on with the atom before it. -/
def Ends (more : List Char) : Prop := ∀ c ∈ more.head?, c ∈ delimiters

theorem Ends.apart (ends : Ends more) (rest : List Char) : Apart rest more := by
  have hall : delimiters.all (fun c => !isNumeric c) = true := rfl
  refine .inr fun c hc => ?_
  simpa using List.all_eq_true.1 hall c (ends c hc)

theorem mem_delimiters_of_isBlank {c : Char} (h : isBlank c = true) : c ∈ delimiters := by
  simp only [isBlank, Bool.or_eq_true, decide_eq_true_eq] at h
  rcases h with ((rfl | rfl) | rfl) | rfl <;> decide

theorem Ends.append {blanks cs : List Char} (h : Blank blanks) (ends : Ends cs) :
    Ends (blanks ++ cs) := by
  cases blanks with
  | nil => exact ends
  | cons c rest =>
    rintro d ⟨⟩
    exact mem_delimiters_of_isBlank (h c List.mem_cons_self)

theorem mem_delimiters_of_sign {c : Char} {token : Token} (h : sign? c = some token) :
    c ∈ delimiters := by
  rw [sign?] at h
  iterate 6
    split at h
    · rename_i hc
      rw [hc]
      decide
  cases h

/-- Where a text begins with a sign, or not at all, no number goes on. -/
theorem ends_of_lex {row : List Token} (h : lex cs = some row)
    (apart : ∀ token ∈ row.head?, token.isAtom = false) : Ends cs := by
  obtain ⟨hblank, -⟩ | ⟨blanks, tail, token, rest, row, hblank, hread, -, rfl, rfl⟩ := lex_cases h
  · exact fun c hc => mem_delimiters_of_isBlank (hblank c (List.mem_of_mem_head? hc))
  · refine Ends.append hblank ?_
    have hatom := apart token rfl
    revert hread
    fun_cases readToken? tail with
    | case1 =>
      intro h
      cases h
    | case6 c tail token _ _ _ _ hsign =>
      rintro ⟨⟩ _ ⟨⟩
      exact mem_delimiters_of_sign hsign
    | case5 | case7 =>
      intro h
      obtain ⟨_, -, ⟨⟩⟩ := Option.map_eq_some_iff.1 h
      cases hatom
    | _ =>
      rintro ⟨⟩
      cases hatom

end DocPath.Json
