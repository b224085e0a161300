import DocPath.Path.Basic

/-!
# The grammar of paths

What a path looks like, said without how it is read. Each rule relates a text to what it spells:

    path     =  ["."] segment *("." segment)
    segment  =  name *index  /  1*index
    index    =  "[" 1*digit "]"

A name is one character or more, none of them a dot or a bracket. The digits of an index are those
of a decimal number that fits 64 bits, with as many leading zeros as one likes.
-/

namespace DocPath

namespace Grammar

/-- Whether a character can stand in a name. -/
def IsNameChar (c : Char) : Prop := c ≠ '.' ∧ c ≠ '[' ∧ c ≠ ']'

/-- `name = 1*namechar` -/
structure Name (text : List Char) : Prop where
  ne_nil : text ≠ []
  plain : ∀ c ∈ text, IsNameChar c

/-- `1*digit`, and the position that the digits denote. -/
structure Digits (text : List Char) (position : UInt64) : Prop where
  ne_nil : text ≠ []
  digits : ∀ c ∈ text, c.isDigit = true
  value : Nat.ofDigitChars 10 text 0 = position.toNat

/-- `*index = *("[" 1*digit "]")`, and a step for each. -/
inductive Indices : List Char → List Step → Prop where
  | nil : Indices [] []
  | cons {digits text : List Char} {position : UInt64} {steps : List Step} :
    Digits digits position → Indices text steps →
      Indices ('[' :: (digits ++ ']' :: text)) (.index position :: steps)

/-- `segment = name *index / 1*index`, and the steps down the segment. -/
inductive Segment : List Char → List Step → Prop where
  | named {name text : List Char} {steps : List Step} :
    Name name → Indices text steps → Segment (name ++ text) (.key (String.ofList name) :: steps)
  | bare {text : List Char} {steps : List Step} :
    text ≠ [] → Indices text steps → Segment text steps

/-- `*("." segment)`, and the steps down all of them. -/
inductive Segments : List Char → List Step → Prop where
  | nil : Segments [] []
  | cons {text rest : List Char} {steps more : List Step} :
    Segment text steps → Segments rest more → Segments ('.' :: (text ++ rest)) (steps ++ more)

/-- `path = ["."] segment *("." segment)`, and its steps. -/
inductive PathText : List Char → List Step → Prop where
  | plain {text rest : List Char} {steps more : List Step} :
    Segment text steps → Segments rest more → PathText (text ++ rest) (steps ++ more)
  | dotted {text rest : List Char} {steps more : List Step} :
    Segment text steps → Segments rest more → PathText ('.' :: (text ++ rest)) (steps ++ more)

variable {text rest name : List Char} {steps more : List Step} {position : UInt64}

theorem Digits.not_mem (h : Digits text position) {c : Char} (hc : c.isDigit = false) :
    c ∉ text := by
  intro mem
  have digit := h.digits c mem
  rw [hc] at digit
  cases digit

theorem Name.not_mem (h : Name name) {c : Char} (hc : ¬IsNameChar c) : c ∉ name :=
  fun mem => hc (h.plain c mem)

theorem Indices.dot_not_mem (h : Indices text steps) : '.' ∉ text := by
  induction h with
  | nil => simp
  | cons digits _ ih => simp [digits.not_mem (c := '.') rfl, ih]

theorem Segment.dot_not_mem (h : Segment text steps) : '.' ∉ text := by
  cases h with
  | named name indices => simp [name.not_mem (c := '.') (by simp [IsNameChar]), indices.dot_not_mem]
  | bare _ indices => exact indices.dot_not_mem

theorem Segment.ne_nil (h : Segment text steps) : text ≠ [] := by
  cases h with
  | named name _ => exact List.append_ne_nil_of_left_ne_nil name.ne_nil _
  | bare nonempty _ => exact nonempty

theorem Segment.steps_ne_nil (h : Segment text steps) : steps ≠ [] := by
  cases h with
  | named _ _ => exact List.cons_ne_nil _ _
  | bare nonempty indices =>
    cases indices with
    | nil => exact absurd rfl nonempty
    | cons _ _ => exact List.cons_ne_nil _ _

theorem PathText.steps_ne_nil (h : PathText text steps) : steps ≠ [] := by
  rcases h with ⟨segment, _⟩ | ⟨segment, _⟩
  all_goals exact List.append_ne_nil_of_left_ne_nil segment.steps_ne_nil _

theorem Indices.key_not_mem (h : Indices text steps) (name : String) : .key name ∉ steps := by
  induction h with
  | nil => simp
  | cons _ _ ih => simp [ih]

/-- The keys of a segment are names. -/
theorem Segment.name_of_mem (h : Segment text steps) {key : String} (mem : .key key ∈ steps) :
    Name key.toList := by
  cases h with
  | named name indices =>
    rcases List.mem_cons.1 mem with e | mem
    · cases e
      rwa [String.toList_ofList]
    · exact absurd mem (indices.key_not_mem key)
  | bare _ indices => exact absurd mem (indices.key_not_mem key)

theorem Segments.name_of_mem (h : Segments text steps) {key : String} (mem : .key key ∈ steps) :
    Name key.toList := by
  induction h with
  | nil => cases mem
  | cons segment _ ih =>
    rcases List.mem_append.1 mem with mem | mem
    · exact segment.name_of_mem mem
    · exact ih mem

/-- The keys of a path are names. -/
theorem PathText.name_of_mem (h : PathText text steps) {key : String} (mem : .key key ∈ steps) :
    Name key.toList := by
  rcases h with ⟨segment, segments⟩ | ⟨segment, segments⟩
  all_goals
    rcases List.mem_append.1 mem with mem | mem
    · exact segment.name_of_mem mem
    · exact segments.name_of_mem mem

theorem Segments.append {text' : List Char} {steps' : List Step} (h : Segments text steps)
    (h' : Segments text' steps') : Segments (text ++ text') (steps ++ steps') := by
  induction h with
  | nil => exact h'
  | cons segment _ ih =>
    have longer := Segments.cons segment ih
    rwa [← List.append_assoc, ← List.append_assoc, ← List.cons_append] at longer

/-- A path goes on after a dot with one segment or more. -/
theorem PathText.append {path : List Char} {before : List Step} (h : PathText path before)
    (hfirst : Segment text steps) (hrest : Segments rest more) :
    PathText (path ++ '.' :: (text ++ rest)) (before ++ (steps ++ more)) := by
  rcases h with ⟨segment, segments⟩ | ⟨segment, segments⟩
  · have longer := PathText.plain segment (segments.append (.cons hfirst hrest))
    rwa [← List.append_assoc, ← List.append_assoc] at longer
  · have longer := PathText.dotted segment (segments.append (.cons hfirst hrest))
    rwa [← List.append_assoc, ← List.append_assoc, ← List.cons_append] at longer

/-- A path that does not begin with its optional dot does not begin with any. -/
theorem dot_not_head (h : Segment text steps) : (text ++ rest).head? ≠ some '.' := by
  obtain ⟨c, others, rfl⟩ := List.exists_cons_of_ne_nil h.ne_nil
  intro head
  obtain rfl : c = '.' := by simpa using head
  exact h.dot_not_mem List.mem_cons_self

end Grammar

/-- Whether every key of a path can stand in a text as it is. -/
def Path.WellFormed (p : Path) : Prop := ∀ name, .key name ∈ p.steps → Grammar.Name name.toList

end DocPath
