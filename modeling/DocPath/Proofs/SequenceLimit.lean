import DocPath.Proofs.EditInvariants

/-!
# How long sequences are

Sequences are filled up to positions below a limit only, and nothing else makes them longer. So an
edit of a document in which no sequence is longer than that leaves one in which none is.
-/

namespace DocPath

namespace Value

/-- No sequence in a value, at any depth, is longer than sequences are filled up to. -/
inductive Bounded : Value → Prop where
  | scalar {v : Value} (h : v.isContainer = false) : Bounded v
  | sequence {items : List Value} (length_le : items.length ≤ positionLimit)
    (items_bounded : ∀ v ∈ items, Bounded v) : Bounded (.sequence items)
  | mapping {fields : Fields Value} (values_bounded : ∀ entry ∈ fields, Bounded entry.2) :
    Bounded (.mapping fields)

variable {step : Step} {v child : Value} {items : List Value} {fields : Fields Value}

theorem Bounded.length_le (h : Bounded (.sequence items)) : items.length ≤ positionLimit := by
  cases h with
  | scalar h => cases h
  | sequence length_le _ => exact length_le

theorem Bounded.of_mem_items (h : Bounded (.sequence items)) (mem : v ∈ items) : v.Bounded := by
  cases h with
  | scalar h => cases h
  | sequence _ items_bounded => exact items_bounded v mem

theorem Bounded.of_mem (h : Bounded (.mapping fields)) {entry : String × Value}
    (mem : entry ∈ fields) : entry.2.Bounded := by
  cases h with
  | scalar h => cases h
  | mapping values_bounded => exact values_bounded entry mem

theorem bounded_null : Bounded .null := .scalar rfl

/-! ### One step -/

theorem Bounded.child? (h : v.Bounded) (hc : child? step v = some child) : child.Bounded := by
  cases step with
  | key name =>
    obtain ⟨fields, rfl, hget⟩ := child?_key_eq_some.1 hc
    exact h.of_mem (Fields.mem_of_get? hget)
  | index i =>
    obtain ⟨items, rfl, hget⟩ := child?_index_eq_some.1 hc
    exact h.of_mem_items (List.mem_of_getElem? hget)

theorem Bounded.setChild (h : v.Bounded) (hchild : child.Bounded) (step : Step) :
    (setChild child step v).Bounded := by
  cases step with
  | key name => cases v with
    | mapping fields =>
      refine .mapping fun entry mem => ?_
      rcases Fields.mem_insert mem with rfl | mem
      · exact hchild
      · exact h.of_mem mem
    | _ => exact h
  | index i => cases v with
    | sequence items =>
      refine .sequence (by rw [List.length_set]; exact h.length_le) fun item mem => ?_
      rcases List.mem_or_eq_of_mem_set mem with mem | rfl
      · exact h.of_mem_items mem
      · exact hchild
    | _ => exact h

theorem Bounded.dropChild (h : v.Bounded) (step : Step) : (dropChild step v).Bounded := by
  cases step with
  | key name => cases v with
    | mapping fields => exact .mapping fun entry mem => h.of_mem (List.mem_filter.1 mem).1
    | _ => exact h
  | index i => cases v with
    | sequence items =>
      refine .sequence ?_ fun item mem => h.of_mem_items (List.mem_of_mem_eraseIdx mem)
      exact Nat.le_trans (List.length_eraseIdx_le items i.toNat) h.length_le
    | _ => exact h

/-- A sequence is filled up to positions below the limit only. -/
theorem Bounded.prepare (h : v.Bounded) (step : Step) : (prepare step v).2.Bounded := by
  cases step with
  | key name => cases v with
    | mapping fields => exact h
    | _ => exact .mapping fun entry mem => absurd mem List.not_mem_nil
  | index i =>
    rw [Value.prepare]
    cases hopen : openItems? v with
    | none => exact h
    | some items =>
      have hsequence : Bounded (.sequence items) := by
        rcases openItems?_eq_some.1 hopen with rfl | ⟨-, rfl⟩
        · exact h
        · exact .sequence (Nat.zero_le _) fun item mem => absurd mem List.not_mem_nil
      dsimp only
      split
      · exact hsequence
      · rename_i hroom
        have hlength := hsequence.length_le
        refine .sequence (by rw [length_padTo]; omega) fun item mem => ?_
        rcases List.mem_append.1 mem with mem | mem
        · exact hsequence.of_mem_items mem
        · rw [List.eq_of_mem_replicate mem]
          exact bounded_null

/-! ### Edits -/

/-- Whatever is written into a document or removed from it, sequences keep to the limit. -/
theorem editInvariant_bounded : EditInvariant Bounded where
  null := bounded_null
  child := Bounded.child?
  setChild := Bounded.setChild
  dropChild := Bounded.dropChild
  prepare := Bounded.prepare

end Value

end DocPath
