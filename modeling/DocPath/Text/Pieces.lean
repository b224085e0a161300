/-!
# Pieces of a text

A text falls into pieces at every occurrence of a separator. There is always one piece more than
there are separators, so a text without any is its own only piece, and the empty text is one empty
piece.
-/

namespace DocPath.Text

/-- The pieces of a text between its separators. -/
def pieces (separator : Char) : List Char → List (List Char)
  | [] => [[]]
  | c :: rest =>
    if c = separator then [] :: pieces separator rest
    else match pieces separator rest with
      | [] => [[c]]
      | piece :: others => (c :: piece) :: others

theorem pieces_ne_nil (separator : Char) (cs : List Char) : pieces separator cs ≠ [] := by
  cases cs with
  | nil => simp [pieces]
  | cons c rest =>
    unfold pieces
    split
    · simp
    · split <;> simp

/-- A text without separators is its only piece. -/
theorem pieces_of_not_mem {separator : Char} {cs : List Char} (h : separator ∉ cs) :
    pieces separator cs = [cs] := by
  induction cs with
  | nil => rfl
  | cons c rest ih =>
    obtain ⟨hc, hrest⟩ := not_or.1 (mt List.mem_cons.2 h)
    simp [pieces, Ne.symm hc, ih hrest]

/-- What is before the first separator is the first piece. -/
theorem pieces_append {separator : Char} {first : List Char} (h : separator ∉ first)
    (rest : List Char) :
    pieces separator (first ++ separator :: rest) = first :: pieces separator rest := by
  induction first with
  | nil => simp [pieces]
  | cons c others ih =>
    obtain ⟨hc, hothers⟩ := not_or.1 (mt List.mem_cons.2 h)
    simp [pieces, Ne.symm hc, ih hothers]

/-- A text that is split at one separator has the pieces of both parts. -/
theorem pieces_append_cons (separator : Char) (before after : List Char) :
    pieces separator (before ++ separator :: after) =
      pieces separator before ++ pieces separator after := by
  induction before with
  | nil => simp [pieces]
  | cons c rest ih =>
    by_cases hc : c = separator
    · simp [pieces, hc, ih]
    · cases hrest : pieces separator rest with
      | nil => exact absurd hrest (pieces_ne_nil separator rest)
      | cons piece others => simp [pieces, hc, ih, hrest]

/-- Only an empty text, or one that ends with a separator, has an empty last piece. -/
theorem getLast?_of_pieces {separator : Char} {cs : List Char}
    (h : (pieces separator cs).getLast? = some []) : cs = [] ∨ cs.getLast? = some separator := by
  induction cs with
  | nil => exact .inl rfl
  | cons c rest ih =>
    right
    by_cases hc : c = separator
    · rw [pieces, if_pos hc, List.getLast?_cons_of_ne_nil (pieces_ne_nil _ _)] at h
      rcases ih h with rfl | hlast
      · rw [hc, List.getLast?_singleton]
      · rw [List.getLast?_cons, hlast]
        rfl
    · cases hrest : pieces separator rest with
      | nil => exact absurd hrest (pieces_ne_nil separator rest)
      | cons piece others =>
        have hothers : others ≠ [] := by
          rintro rfl
          simp [pieces, hc, hrest] at h
        have hlast : (pieces separator rest).getLast? = some [] := by
          rw [pieces, if_neg hc, hrest] at h
          rw [hrest, List.getLast?_cons_of_ne_nil hothers]
          exact (List.getLast?_cons_of_ne_nil hothers).symm.trans h
        rcases ih hlast with rfl | hlast
        · simp [pieces] at hrest
          exact absurd hrest.2 hothers
        · rw [List.getLast?_cons, hlast]
          rfl

theorem separator_not_mem {separator : Char} {piece cs : List Char}
    (h : piece ∈ pieces separator cs) : separator ∉ piece := by
  induction cs generalizing piece with
  | nil => simp_all [pieces]
  | cons c rest ih =>
    unfold pieces at h
    split at h
    · rcases List.mem_cons.1 h with rfl | h
      · simp
      · exact ih h
    · rename_i hc
      split at h
      · simp_all [Ne.symm hc]
      · rename_i first others heq
        rcases List.mem_cons.1 h with rfl | h
        · have := ih (heq ▸ List.mem_cons_self)
          simp [this, Ne.symm hc]
        · exact ih (heq ▸ List.mem_cons_of_mem _ h)

/-- What is taken up to a character ends right before its first occurrence. -/
theorem takeWhile_ne_append {stop : Char} {first : List Char} (h : stop ∉ first)
    (rest : List Char) : (first ++ stop :: rest).takeWhile (· ≠ stop) = first := by
  have hne : ∀ c ∈ first, decide (c ≠ stop) = true := by
    intro c hc
    exact decide_eq_true fun e => h (e ▸ hc)
  rw [List.takeWhile_append_of_pos hne, List.takeWhile_cons_of_neg (by simp), List.append_nil]

theorem dropWhile_ne_append {stop : Char} {first : List Char} (h : stop ∉ first)
    (rest : List Char) : (first ++ stop :: rest).dropWhile (· ≠ stop) = stop :: rest := by
  have hne : ∀ c ∈ first, decide (c ≠ stop) = true := by
    intro c hc
    exact decide_eq_true fun e => h (e ▸ hc)
  rw [List.dropWhile_append_of_pos hne, List.dropWhile_cons_of_neg (by simp)]

theorem not_mem_takeWhile_ne (stop : Char) (cs : List Char) : stop ∉ cs.takeWhile (· ≠ stop) := by
  intro h
  exact of_decide_eq_true (List.all_eq_true.1 List.all_takeWhile stop h) rfl

/-- What is left from a character on begins with it. -/
theorem eq_of_dropWhile_ne {stop c : Char} {cs rest : List Char}
    (h : cs.dropWhile (· ≠ stop) = c :: rest) :
    c = stop ∧ cs = cs.takeWhile (· ≠ stop) ++ stop :: rest := by
  have hhead := List.head?_dropWhile_not (· ≠ stop) cs
  rw [h] at hhead
  have hc : c = stop := by simpa using hhead
  refine ⟨hc, ?_⟩
  rw [← hc, ← h, hc, List.takeWhile_append_dropWhile]

end DocPath.Text
