import DocPath.Proofs.PathReading

/-!
# The text of a path, read back

Writing puts a dot before a key only if something stands before it, so the text after a first step
is indices as far as there are any, and then segments that each begin with a dot. That is what the
grammar derives, as long as every key is a name; and the grammar derives no key that is none.
-/

namespace DocPath

open Grammar

namespace Step

theorem digits_grammar (position : UInt64) : Digits (digits position) position where
  ne_nil := Nat.toDigits_ne_nil
  digits _ mem := Nat.isDigit_of_mem_toDigits (by decide) (by decide) mem
  value := Nat.ofDigitChars_ten_toDigits

/-- What is written for steps that come after others. -/
theorem exists_of_renderFrom {steps : List Step}
    (h : ∀ name, .key name ∈ steps → Name name.toList) :
    ∃ text rest indexSteps more, renderFrom true steps = text ++ rest ∧
      steps = indexSteps ++ more ∧ Indices text indexSteps ∧ Segments rest more := by
  induction steps with
  | nil => exact ⟨[], [], [], [], rfl, rfl, .nil, .nil⟩
  | cons step others ih =>
    have hothers : ∀ name, .key name ∈ others → Name name.toList :=
      fun name mem => h name (List.mem_cons_of_mem _ mem)
    obtain ⟨text, rest, indexSteps, more, htext, rfl, hindices, hsegments⟩ := ih hothers
    cases step with
    | key name =>
      have segment : Segment (name.toList ++ text) (.key name :: indexSteps) := by
        have named := Segment.named (h name List.mem_cons_self) hindices
        rwa [String.ofList_toList] at named
      refine ⟨[], _, [], _, ?_, rfl, .nil, .cons segment hsegments⟩
      simp [renderFrom, htext]
    | index position =>
      refine ⟨_, rest, _, more, ?_, rfl, .cons (digits_grammar position) hindices, hsegments⟩
      simp [renderFrom, htext]

/-- What is written for steps with names for keys is a path, and of just these steps. -/
theorem pathText_renderFrom {steps : List Step} (hsteps : steps ≠ [])
    (h : ∀ name, .key name ∈ steps → Name name.toList) :
    PathText (renderFrom false steps) steps := by
  obtain ⟨step, others, rfl⟩ := List.exists_cons_of_ne_nil hsteps
  obtain ⟨text, rest, indexSteps, more, htext, rfl, hindices, hsegments⟩ :=
    exists_of_renderFrom fun name mem => h name (List.mem_cons_of_mem _ mem)
  cases step with
  | key name =>
    have hname : Name name.toList := h name List.mem_cons_self
    have named := Segment.named hname hindices
    rw [String.ofList_toList] at named
    have written := PathText.plain named hsegments
    have hstarted : (false || !name.toList.isEmpty) = true := by simpa using hname.ne_nil
    rwa [renderFrom, hstarted, htext, if_neg Bool.false_ne_true, ← List.append_assoc]
  | index position =>
    have indices := Indices.cons (digits_grammar position) hindices
    have written := PathText.plain (.bare (List.cons_ne_nil _ _) indices) hsegments
    rw [renderFrom, htext]
    simpa using written

end Step

namespace Path

/-- The text of a path reads as that path just if its keys are names. -/
theorem read_text_iff {p : Path} : Path.read p.text = .ok p ↔ p.WellFormed := by
  rw [read_eq_ok_iff]
  constructor
  · intro h name mem
    exact h.name_of_mem mem
  · intro h
    rw [text, Step.render, String.toList_ofList]
    exact Step.pathText_renderFrom p.steps_ne_nil h

/-- A path that was read has names for keys. -/
theorem wellFormed_of_read {input : String} {p : Path} (h : Path.read input = .ok p) :
    p.WellFormed := fun _ mem => (read_eq_ok_iff.1 h).name_of_mem mem

/-- Paths with names for keys differ in their texts. -/
theorem eq_of_text_eq {p q : Path} (hp : p.WellFormed) (hq : q.WellFormed)
    (h : p.text = q.text) : p = q := by
  have hread := read_text_iff.2 hp
  rw [h, read_text_iff.2 hq] at hread
  exact (Except.ok.inj hread).symm

/-- Writing a path and reading it back is exact where every key is a name, and nowhere else. That is
so of every path that was read: its text is one to which all texts of the path come down. -/
theorem read_text_canonical :
    (∀ p : Path, Path.read p.text = .ok p ↔ p.WellFormed) ∧
    (∀ input p, Path.read input = .ok p → p.WellFormed ∧ Path.read p.text = .ok p) ∧
    (∀ input p, Path.read input = .ok p →
      ∃ q, Path.read p.text = .ok q ∧ q.text = p.text) ∧
    (∀ input other p q, Path.read input = .ok p → Path.read other = .ok q →
      p.text = q.text → p = q) := by
  refine ⟨fun p => read_text_iff, ?_, ?_, ?_⟩
  · intro input p h
    exact ⟨wellFormed_of_read h, read_text_iff.2 (wellFormed_of_read h)⟩
  · intro input p h
    exact ⟨p, read_text_iff.2 (wellFormed_of_read h), rfl⟩
  · intro input other p q hp hq h
    exact eq_of_text_eq (wellFormed_of_read hp) (wellFormed_of_read hq) h

/-- A path with a dot in front and leading zeros in an index, and the text it comes down to. -/
theorem read_text_canonical_leading_zeros :
    let p : Path := ⟨[.key "pods", .index 7, .key "ready"], List.cons_ne_nil _ _⟩
    Path.read ".pods[007].ready" = .ok p ∧ p.text = "pods[7].ready" ∧ p.WellFormed ∧
      Path.read "pods[7].ready" = .ok p := by
  intro p
  have hread : Path.read ".pods[007].ready" = .ok p := rfl
  have htext : p.text = "pods[7].ready" := rfl
  obtain ⟨hform, hagain⟩ := read_text_canonical.2.1 _ p hread
  exact ⟨hread, htext, hform, htext ▸ hagain⟩

end Path

end DocPath
