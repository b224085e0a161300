import DocPath.Proofs.Outcome
import DocPath.Proofs.Walk

/-!
# Walks that create what is missing

A write takes its first step from a node made ready for it (`prepare`), and goes on from there with
what lies one step down, or with null. Along steps that lead to a node nothing has to be made ready,
and a write is `put`. Where they lead nowhere, a write that gets through leaves a document in which
they do, so a second write through it is `put` again (`zoom_ok`).
-/

namespace DocPath

namespace Halt

/-- The same halt seen from `count` steps higher. -/
def below (count : Nat) (halt : Halt) : Halt := { halt with depth := count + halt.depth }

theorem below_zero : below 0 = id := by
  funext halt
  simp [below]

theorem deeper_comp_below (count : Nat) : deeper ∘ below count = below (count + 1) := by
  funext halt
  simp [below, deeper, Nat.add_right_comm]

end Halt

namespace Value

/-! ### Making one node ready -/

theorem openItems?_eq_some {v : Value} {items : List Value} :
    openItems? v = some items ↔ v = .sequence items ∨ v = .null ∧ items = [] := by
  cases v <;> simp [openItems?, eq_comm]

/-- The items to go on with are those that positions lead to. -/
theorem child?_index_of_openItems? {v : Value} {items : List Value} (h : openItems? v = some items)
    (j : UInt64) : child? (.index j) v = items[j.toNat]? := by
  rcases openItems?_eq_some.1 h with rfl | ⟨rfl, rfl⟩ <;> rfl

theorem openItems?_eq_none {v : Value} :
    openItems? v = none ↔ v.isNull = false ∧ v.isSequence = false := by
  cases v <;> simp [openItems?, isNull, isSequence, kind]

theorem getElem?_padTo (i j : Nat) (items : List Value) :
    (padTo i items)[j]? = if items.length ≤ j ∧ j ≤ i then some .null else items[j]? := by
  rw [padTo]
  by_cases h : j < items.length
  · rw [List.getElem?_append_left h, if_neg (by omega)]
  · rw [List.getElem?_append_right (by omega), List.getElem?_replicate]
    by_cases hj : j ≤ i
    · rw [if_pos (by omega), if_pos (by omega)]
    · rw [if_neg (by omega), if_neg (by omega), List.getElem?_eq_none (by omega)]

theorem length_padTo (i : Nat) (items : List Value) :
    (padTo i items).length = max items.length (i + 1) := by
  rw [padTo, List.length_append, List.length_replicate]
  omega

theorem lt_length_padTo (i : Nat) (items : List Value) : i < (padTo i items).length := by
  rw [length_padTo]
  omega

theorem padTo_of_lt {i : Nat} {items : List Value} (h : i < items.length) :
    padTo i items = items := by
  rw [padTo, Nat.sub_eq_zero_of_le h, List.replicate_zero, List.append_nil]

/-- An index step goes on from a sequence or from null, and only below the limit or in bounds. -/
theorem prepare_index_eq_none {i : UInt64} {v w : Value} :
    prepare (.index i) v = (none, w) ↔
      ∃ items, openItems? v = some items ∧ ¬(items.length ≤ i.toNat ∧ positionLimit ≤ i.toNat) ∧
        w = .sequence (padTo i.toNat items) := by
  rw [prepare]
  cases openItems? v with
  | none => simp
  | some items =>
    by_cases h : items.length ≤ i.toNat ∧ positionLimit ≤ i.toNat
    · simp [h, Nat.not_lt.2 h.1]
    · simp only [if_neg h, Prod.mk.injEq, true_and, Option.some.injEq, exists_eq_left', eq_comm]
      exact ⟨fun hw => ⟨h, hw⟩, fun hw => hw.2⟩

/-- A step that leads somewhere leaves its node as it is. -/
theorem prepare_of_child? {step : Step} {v child : Value} (h : child? step v = some child) :
    prepare step v = (none, v) := by
  cases step with
  | key name =>
    obtain ⟨fields, rfl, -⟩ := child?_key_eq_some.1 h
    rfl
  | index i =>
    obtain ⟨items, rfl, hc⟩ := child?_index_eq_some.1 h
    have hi : i.toNat < items.length := (List.getElem?_eq_some_iff.1 hc).1
    exact prepare_index_eq_none.2 ⟨items, rfl, by omega, by rw [padTo_of_lt hi]⟩

/-- A node that was made ready takes a child. -/
theorem child?_setChild_of_prepare {step : Step} {v w : Value} (h : prepare step v = (none, w))
    (child : Value) : child? step (setChild child step w) = some child := by
  cases step with
  | key name =>
    cases h
    exact Fields.get?_insert_self name child _
  | index i =>
    obtain ⟨items, -, -, rfl⟩ := prepare_index_eq_none.1 h
    exact List.getElem?_set_self (lt_length_padTo _ _)

theorem admits_setChild (step : Step) (child : Value) (other : Step) (v : Value) :
    admits step (setChild child other v) = admits step v := by
  cases step <;> cases other <;> cases v <;> rfl

theorem admits_of_prepare {step : Step} {v w : Value} (h : prepare step v = (none, w)) :
    admits step w = true := by
  cases step with
  | key name =>
    cases h
    rfl
  | index i =>
    obtain ⟨items, -, -, rfl⟩ := prepare_index_eq_none.1 h
    rfl

/-- A node that was made ready for a step has the same in every slot of that kind, though it may be
null that stands there now. -/
theorem slot_of_prepare_of_needs {s t : Step} (hneeds : s.needs = t.needs) {v w : Value}
    (h : prepare s v = (none, w)) : slot t w = slot t v := by
  cases s with
  | key name => cases t with
    | key other =>
      cases h
      cases v <;> rfl
    | index j => cases hneeds
  | index i => cases t with
    | key other => cases hneeds
    | index j =>
      obtain ⟨items, hv, -, rfl⟩ := prepare_index_eq_none.1 h
      rw [slot, slot, child?_index_of_openItems? hv, child?, getElem?_padTo]
      split
      · rename_i hpad
        rw [List.getElem?_eq_none hpad.1]
        rfl
      · rfl

theorem slot_of_prepare {step : Step} {v w : Value} (h : prepare step v = (none, w)) :
    slot step w = slot step v := slot_of_prepare_of_needs rfl h

/-! ### Writing along steps -/

section

variable {α : Type} (edit : Value → α × Value)

theorem zoom_cons_of_prepare {step : Step} {v w : Value} (h : prepare step v = (none, w))
    (rest : List Step) :
    zoom edit (step :: rest) v = ((zoom edit rest (slot step v)).1.mapError Halt.deeper,
      setChild (zoom edit rest (slot step v)).2 step w) := by
  rw [zoom, h, ← slot_of_prepare h]

theorem zoom_cons_of_obstacle {step : Step} {v w : Value} {obstacle : Obstacle}
    (h : prepare step v = (some obstacle, w)) (rest : List Step) :
    zoom edit (step :: rest) v = (.error (.here obstacle), w) := by
  rw [zoom, h]

/-- Writing below a node that is there is writing on that node and putting it back. -/
theorem zoom_append_of_get? {p : List Step} {v node : Value} (h : get? p v = some node)
    (q : List Step) :
    zoom edit (p ++ q) v = ((zoom edit q node).1.mapError (Halt.below p.length),
      put (zoom edit q node).2 p v) := by
  induction p generalizing v with
  | nil =>
    obtain rfl := Option.some.inj h
    rw [List.nil_append, List.length_nil, Halt.below_zero, put]
    cases zoom edit q v with
    | mk result v => cases result <;> rfl
  | cons step rest ih =>
    obtain ⟨child, hc, hr⟩ := get?_cons_eq_some.1 h
    rw [List.cons_append, zoom_cons_of_prepare edit (prepare_of_child? hc), slot_of_child? hc,
      ih hr, mapError_mapError, Halt.deeper_comp_below, put, slot_of_child? hc, List.length_cons]

/-- Where steps lead to a node, a write edits that node. -/
theorem zoom_of_get? {p : List Step} {v node : Value} (h : get? p v = some node) :
    zoom edit p v = (.ok (edit node).1, put (edit node).2 p v) := by
  have happ := zoom_append_of_get? edit h []
  rwa [List.append_nil] at happ

/-- A write that gets through does so at its first step and from there on. -/
theorem zoom_cons_ok {step : Step} {rest : List Step} {v v' : Value} {a : α}
    (h : zoom edit (step :: rest) v = (.ok a, v')) :
    ∃ w child, prepare step v = (none, w) ∧ zoom edit rest (slot step v) = (.ok a, child) ∧
      v' = setChild child step w := by
  rcases hp : prepare step v with ⟨_ | obstacle, w⟩
  · rw [zoom_cons_of_prepare edit hp, Prod.mk.injEq, mapError_eq_ok] at h
    exact ⟨w, _, rfl, Prod.ext h.1 rfl, h.2.symm⟩
  · rw [zoom_cons_of_obstacle edit hp] at h
    cases h

/-- What a write that gets through has done: it edited one node, which the steps lead to from then
on, and any other write would have edited the same one. -/
theorem zoom_ok {p : List Step} {v v' : Value} {a : α} (h : zoom edit p v = (.ok a, v')) :
    ∃ node, a = (edit node).1 ∧ get? p v' = some (edit node).2 ∧
      ∀ {β : Type} (other : Value → β × Value),
        zoom other p v = (.ok (other node).1, put (other node).2 p v') := by
  induction p generalizing v v' with
  | nil =>
    cases h
    exact ⟨v, rfl, rfl, fun other => rfl⟩
  | cons step rest ih =>
    obtain ⟨w, child, hp, hz, rfl⟩ := zoom_cons_ok edit h
    obtain ⟨node, rfl, hget, hother⟩ := ih hz
    have hc := child?_setChild_of_prepare hp child
    refine ⟨node, rfl, by rw [get?_cons_of_child? hc, hget], fun other => ?_⟩
    rw [zoom_cons_of_prepare other hp, hother, put, slot_of_child? hc, setChild_setChild]
    rfl

/-- Whether a write gets through does not depend on what it is to do. -/
theorem zoom_error {p : List Step} {v v' : Value} {halt : Halt}
    (h : zoom edit p v = (.error halt, v')) {β : Type} (other : Value → β × Value) :
    zoom other p v = (.error halt, v') := by
  induction p generalizing v v' halt with
  | nil => cases h
  | cons step rest ih =>
    rcases hp : prepare step v with ⟨_ | obstacle, w⟩
    · rw [zoom_cons_of_prepare edit hp] at h
      rcases hz : zoom edit rest (slot step v) with ⟨inner | a, child⟩
      · rw [hz] at h
        cases h
        rw [zoom_cons_of_prepare other hp, ih hz]
        rfl
      · rw [hz] at h
        cases h
    · rw [zoom_cons_of_obstacle edit hp] at h
      cases h
      exact zoom_cons_of_obstacle other hp rest

theorem editAt_eq (v : Value) (p : Path) : editAt v p edit =
    ((zoom edit p.steps v).1.mapError (Halt.error p), (zoom edit p.steps v).2) := rfl

theorem editAt_eq_ok {v v' : Value} {p : Path} {a : α} :
    editAt v p edit = (.ok a, v') ↔ zoom edit p.steps v = (.ok a, v') := by
  rw [editAt_eq, Prod.mk.injEq, mapError_eq_ok, Prod.ext_iff]

/-- Editing along a joined path is editing at the inner node and putting it back. An error counts
the steps from further up. -/
theorem editAt_join {v node : Value} {p : Path} (h : v.getAt p = some node) (q : Path) :
    editAt v (p.join q) edit =
      ((zoom edit q.steps node).1.mapError fun halt => (halt.below p.length).error (p.join q),
        put (zoom edit q.steps node).2 p.steps v) := by
  rw [editAt_eq, Path.join, zoom_append_of_get? edit h, mapError_mapError]
  rfl

end

end Value

end DocPath
