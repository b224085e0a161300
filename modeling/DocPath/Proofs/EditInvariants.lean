import DocPath.Proofs.Removal

/-!
# What edits keep

A write and a removal are made of steps: going down to a child or to null, making a node ready,
putting a child back, and taking one away. A property of documents that each of these keeps is kept
by every edit along a path, also by one that halts on its way.
-/

namespace DocPath

namespace Value

/-- A property of documents that passes on to children and that every step of an edit keeps. -/
structure EditInvariant (P : Value → Prop) : Prop where
  null : P .null
  child : ∀ {step v child}, P v → child? step v = some child → P child
  setChild : ∀ {v child}, P v → P child → ∀ step, P (setChild child step v)
  dropChild : ∀ {v}, P v → ∀ step, P (dropChild step v)
  /-- Also where the node turns out not to be fit for the step. -/
  prepare : ∀ {v}, P v → ∀ step, P (prepare step v).2

namespace EditInvariant

variable {P : Value → Prop} (invariant : EditInvariant P) {v node : Value}

include invariant

theorem slot (h : P v) (step : Step) : P (slot step v) := by
  cases hc : child? step v with
  | some child =>
    rw [slot_of_child? hc]
    exact invariant.child h hc
  | none =>
    rw [slot_of_child?_none hc]
    exact invariant.null

/-- A write keeps what its edit at the end keeps. -/
theorem zoom {α : Type} {edit : Value → α × Value} (hedit : ∀ node, P node → P (edit node).2)
    (h : P v) (p : List Step) : P (zoom edit p v).2 := by
  induction p generalizing v with
  | nil => exact hedit v h
  | cons step rest ih =>
    have hready := invariant.prepare h step
    rcases hp : Value.prepare step v with ⟨_ | obstacle, w⟩
    · rw [hp] at hready
      rw [zoom_cons_of_prepare edit hp]
      exact invariant.setChild hready (ih (invariant.slot h step)) step
    · rw [hp] at hready
      rw [zoom_cons_of_obstacle edit hp]
      exact hready

theorem get? {p : List Step} (h : P v) (hget : get? p v = some node) : P node := by
  induction p generalizing v with
  | nil =>
    cases hget
    exact h
  | cons step rest ih =>
    obtain ⟨child, hc, hrest⟩ := get?_cons_eq_some.1 hget
    exact ih (invariant.child h hc) hrest

theorem put (h : P v) (hnode : P node) (p : List Step) : P (put node p v) := by
  induction p generalizing v with
  | nil => exact hnode
  | cons step rest ih => exact invariant.setChild h (ih (invariant.slot h step)) step

theorem setAt (h : P v) (hnode : P node) (p : Path) : P (v.setAt p node).2 :=
  invariant.zoom (fun _ _ => hnode) h p.steps

theorem removeAt (h : P v) (p : Path) : P (v.removeAt p).2 := by
  cases hget : v.getAt p with
  | some x =>
    obtain ⟨node, hnode, -, hremove⟩ := removeAt_of_getAt hget
    rw [hremove]
    exact invariant.put h (invariant.dropChild (invariant.get? h hnode) p.last) p.steps.dropLast
  | none =>
    obtain ⟨i, step, node, -, -, -, hremove⟩ := removeAt_of_getAt_none hget
    rw [hremove]
    exact h

theorem set (h : P v) (hnode : P node) (address : Address) : P (v.set address node).2 := by
  rw [Value.set]
  cases address.resolve with
  | ok p => exact invariant.setAt h hnode p
  | error error => exact h

theorem remove (h : P v) (address : Address) : P (v.remove address).2 := by
  rw [Value.remove]
  cases address.resolve with
  | ok p => exact invariant.removeAt h p
  | error error => exact h

end EditInvariant

end Value

end DocPath
