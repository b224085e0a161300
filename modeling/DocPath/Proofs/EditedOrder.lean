import DocPath.Document.Ordered
import DocPath.Proofs.EditInvariants

/-!
# Edited documents are in order

One step down from a document in order lies a document in order, and putting one there or taking it
away keeps the order. So every edit along a path does.
-/

namespace DocPath

namespace Value

variable {step : Step} {v node child : Value}

theorem ordered_null : Ordered .null := .scalar rfl

theorem ordered_empty : Ordered (.mapping []) :=
  .mapping .nil fun _ mem => absurd mem List.not_mem_nil

/-! ### One step -/

theorem Ordered.child? (h : v.Ordered) (hc : child? step v = some child) : child.Ordered := by
  cases step with
  | key name =>
    obtain ⟨fields, rfl, hget⟩ := child?_key_eq_some.1 hc
    exact h.of_get? hget
  | index i =>
    obtain ⟨items, rfl, hget⟩ := child?_index_eq_some.1 hc
    exact h.of_mem_items (List.mem_of_getElem? hget)

theorem Ordered.setChild (h : v.Ordered) (hchild : child.Ordered) (step : Step) :
    (setChild child step v).Ordered := by
  cases step with
  | key name => cases v with
    | mapping fields => exact h.insert name hchild
    | _ => exact h
  | index i => cases v with
    | sequence items =>
      refine .sequence fun item mem => ?_
      rcases List.mem_or_eq_of_mem_set mem with mem | rfl
      · exact h.of_mem_items mem
      · exact hchild
    | _ => exact h

theorem Ordered.dropChild (h : v.Ordered) (step : Step) : (dropChild step v).Ordered := by
  cases step with
  | key name => cases v with
    | mapping fields =>
      exact .mapping (h.fields.erase name) fun entry mem => h.of_mem (List.mem_filter.1 mem).1
    | _ => exact h
  | index i => cases v with
    | sequence items =>
      exact .sequence fun item mem => h.of_mem_items (List.mem_of_mem_eraseIdx mem)
    | _ => exact h

/-- A node is in order also when it was made ready for a step. -/
theorem Ordered.prepare (h : v.Ordered) (step : Step) : (prepare step v).2.Ordered := by
  cases step with
  | key name => cases v with
    | mapping fields => exact h
    | _ => exact ordered_empty
  | index i =>
    rw [Value.prepare]
    cases hopen : openItems? v with
    | none => exact h
    | some items =>
      have hitems : ∀ item ∈ items, item.Ordered := by
        rcases openItems?_eq_some.1 hopen with rfl | ⟨-, rfl⟩
        · exact fun item => h.of_mem_items
        · simp
      dsimp only
      split
      · exact .sequence hitems
      · refine .sequence fun item mem => ?_
        rcases List.mem_append.1 mem with mem | mem
        · exact hitems item mem
        · rw [List.eq_of_mem_replicate mem]
          exact ordered_null

theorem editInvariant_ordered : EditInvariant Ordered where
  null := ordered_null
  child := Ordered.child?
  setChild := Ordered.setChild
  dropChild := Ordered.dropChild
  prepare := Ordered.prepare

/-! ### Edits -/

theorem Ordered.slot (h : v.Ordered) (step : Step) : (slot step v).Ordered :=
  editInvariant_ordered.slot h step

theorem Ordered.zoom {α : Type} {edit : Value → α × Value}
    (hedit : ∀ node, node.Ordered → (edit node).2.Ordered) (h : v.Ordered) (p : List Step) :
    (zoom edit p v).2.Ordered :=
  editInvariant_ordered.zoom hedit h p

theorem Ordered.get? {p : List Step} (h : v.Ordered) (hget : get? p v = some node) :
    node.Ordered :=
  editInvariant_ordered.get? h hget

theorem Ordered.set (h : v.Ordered) (hnode : node.Ordered) (address : Address) :
    (v.set address node).2.Ordered :=
  editInvariant_ordered.set h hnode address

theorem Ordered.remove (h : v.Ordered) (address : Address) : (v.remove address).2.Ordered :=
  editInvariant_ordered.remove h address

end Value

end DocPath
