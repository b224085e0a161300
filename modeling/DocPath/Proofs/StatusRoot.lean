import DocPath.Proofs.DeepMerge
import DocPath.Proofs.Removal
import DocPath.Resource.Status

/-!
# A status as a document

A status is read and written as the document whose root is its mapping. No write along a path makes
anything else of a root that is a mapping, so putting the root back into the status loses nothing:
whatever a read or a write answers, and whatever it leaves, is what the document answers and leaves.
-/

namespace DocPath

namespace Value

variable {α : Type} {edit : Value → α × Value} {v : Value}

/-! ### A root that is a mapping -/

theorem isMapping_setChild (child : Value) (step : Step) (v : Value) :
    (setChild child step v).isMapping = v.isMapping :=
  admits_setChild (.key "") child step v

theorem isMapping_dropChild (step : Step) (v : Value) :
    (dropChild step v).isMapping = v.isMapping := by
  cases step <;> cases v <;> rfl

/-- A mapping is ready for a key, and an index is turned away. -/
theorem isMapping_prepare (h : v.isMapping = true) (step : Step) :
    (prepare step v).2.isMapping = true := by
  obtain ⟨fields, rfl⟩ := exists_fields_of_isMapping h
  cases step <;> rfl

theorem isMapping_put (h : v.isMapping = true) {p : List Step} (hp : p ≠ []) (node : Value) :
    (put node p v).isMapping = true := by
  obtain ⟨step, rest, rfl⟩ := List.exists_cons_of_ne_nil hp
  rw [put, isMapping_setChild, h]

/-- A write below the root leaves it a mapping, also where it fails. -/
theorem isMapping_zoom (h : v.isMapping = true) {p : List Step} (hp : p ≠ []) :
    (zoom edit p v).2.isMapping = true := by
  obtain ⟨step, rest, rfl⟩ := List.exists_cons_of_ne_nil hp
  have hready := isMapping_prepare h step
  rcases hprepare : prepare step v with ⟨_ | obstacle, w⟩
  · rw [hprepare] at hready
    rw [zoom_cons_of_prepare edit hprepare, isMapping_setChild, hready]
  · rw [hprepare] at hready
    rw [zoom_cons_of_obstacle edit hprepare, hready]

theorem isMapping_removeAt (h : v.isMapping = true) (p : Path) :
    (v.removeAt p).2.isMapping = true := by
  cases hget : v.getAt p with
  | none =>
    obtain ⟨i, step, node, -, -, -, hremove⟩ := removeAt_of_getAt_none hget
    rw [hremove, h]
  | some x =>
    obtain ⟨node, hnode, -, hremove⟩ := removeAt_of_getAt hget
    rw [hremove]
    cases hparents : p.steps.dropLast with
    | cons step rest => exact isMapping_put h (List.cons_ne_nil step rest) _
    | nil =>
      rw [hparents] at hnode
      cases hnode
      rw [put, isMapping_dropChild, h]

theorem isMapping_set (h : v.isMapping = true) (address : Address) (node : Value) :
    (v.set address node).2.isMapping = true := by
  rw [set]
  cases address.resolve with
  | ok p => exact isMapping_zoom h p.steps_ne_nil
  | error error => exact h

theorem isMapping_remove (h : v.isMapping = true) (address : Address) :
    (v.remove address).2.isMapping = true := by
  rw [remove]
  cases address.resolve with
  | ok p => exact isMapping_removeAt h p
  | error error => exact h

end Value

namespace Status

theorem toValue_ofValue {v : Value} (h : v.isMapping = true) : (ofValue v).toValue = v := by
  obtain ⟨fields, rfl⟩ := Value.exists_fields_of_isMapping h
  rfl

theorem isMapping_toValue (status : Status) : status.toValue.isMapping = true := rfl

/-- An index leads nowhere from a status, as it leads nowhere from a mapping. -/
theorem get?_eq (status : Status) {steps : List Step} (h : steps ≠ []) :
    status.get? steps = Value.get? steps status.toValue := by
  obtain ⟨step, rest, rfl⟩ := List.exists_cons_of_ne_nil h
  rw [Value.get?_cons]
  cases step <;> rfl

theorem get_eq (status : Status) (address : Address) :
    status.get address = status.toValue.get address := by
  rw [get, Value.get]
  exact congrArg (address.resolve.map ·) (funext fun p => status.get?_eq p.steps_ne_nil)

/-- A write that leaves the root a mapping is done on the status as on the document. -/
theorem withRoot_eq {α : Type} {status : Status} {write : Value → α × Value}
    (h : (write status.toValue).2.isMapping = true) :
    (status.withRoot write).1 = (write status.toValue).1 ∧
      (status.withRoot write).2.toValue = (write status.toValue).2 :=
  ⟨rfl, toValue_ofValue h⟩

theorem set_eq (status : Status) (address : Address) (v : Value) :
    (status.set address v).1 = (status.toValue.set address v).1 ∧
      (status.set address v).2.toValue = (status.toValue.set address v).2 :=
  withRoot_eq (Value.isMapping_set status.isMapping_toValue address v)

theorem remove_eq (status : Status) (address : Address) :
    (status.remove address).1 = (status.toValue.remove address).1 ∧
      (status.remove address).2.toValue = (status.toValue.remove address).2 :=
  withRoot_eq (Value.isMapping_remove status.isMapping_toValue address)

end Status

end DocPath
