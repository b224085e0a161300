import DocPath.Proofs.Write
import DocPath.Resource.Basic

/-!
# The identity of a resource stays the one of its object

The identity is read off an object once. What can be done to a resource afterwards goes through its
status: every path that is written begins with the key of the status, and a write on a mapping that
begins with a key changes what is under this key and nothing else, however it ends. So the object
stays the same beside its status, and its identity lies there.
-/

namespace DocPath

/-- A write that begins with a key puts something under that key, whether it gets through or not. -/
theorem Value.zoom_mapping {α : Type} (edit : Value → α × Value) (name : String) (rest : List Step)
    (fields : Fields Value) : ∃ child,
      (zoom edit (.key name :: rest) (.mapping fields)).2 =
        .mapping (Fields.insert name child fields) := by
  have hp : prepare (.key name) (.mapping fields) = (none, .mapping fields) := rfl
  rw [zoom_cons_of_prepare edit hp]
  exact ⟨_, rfl⟩

namespace Identity

variable {before after : Fields Value}

theorem under_of_erase (h : Fields.erase statusKey after = Fields.erase statusKey before)
    (key : String) (hkey : key ≠ statusKey) (rest : List String) :
    under (key :: rest) (.mapping after) = under (key :: rest) (.mapping before) := by
  have hget : Fields.get? key after = Fields.get? key before := by
    rw [← Fields.get?_erase_of_ne hkey after, h, Fields.get?_erase_of_ne hkey]
  simp only [under, List.map_cons, Value.get?_cons, Value.child?, hget]

/-- No part of the identity lies in the status. -/
theorem ofObject_of_erase (h : Fields.erase statusKey after = Fields.erase statusKey before) :
    ofObject (.mapping after) = ofObject (.mapping before) := by
  have hversion := under_of_erase h "apiVersion" (by decide) []
  have hkind := under_of_erase h "kind" (by decide) []
  have hmetadata := under_of_erase h "metadata" (by decide)
  simp only [ofObject, textUnder, textsUnder, hversion, hkind, hmetadata]

end Identity

namespace Resource

/-- Something that changes a resource. -/
inductive Change where
  | editStatus (sub : Option String) (edits : List Edit)
  | setStatus (status : Status)

/-- Makes a change; one that fails leaves what it had done until then. -/
def apply (resource : Resource) : Change → Resource
  | .editStatus sub edits => (resource.editStatus sub edits).2
  | .setStatus status => resource.setStatus status

/-- Makes changes one after the other. -/
def applyAll (resource : Resource) (changes : List Change) : Resource :=
  changes.foldl apply resource

/-- A resource that was made from a mapping, and of which the status may have changed since. -/
structure MadeFrom (fields : Fields Value) (resource : Resource) : Prop where
  identity : resource.identity = .ofObject (.mapping fields)
  object : ∃ left, resource.object = .mapping left ∧
    Fields.erase statusKey left = Fields.erase statusKey fields

variable {fields : Fields Value} {resource : Resource}

/-- Putting anything under the key of the status is no harm. -/
theorem MadeFrom.insert (h : MadeFrom fields resource) {left : Fields Value}
    (hobject : resource.object = .mapping left) (status : Value) :
    MadeFrom fields
      { resource with object := .mapping (Fields.insert statusKey status left) } where
  identity := h.identity
  object := by
    obtain ⟨same, hsame, herase⟩ := h.object
    obtain rfl : same = left := by
      rw [hobject] at hsame
      cases hsame
      rfl
    exact ⟨_, rfl, (Fields.erase_insert_self statusKey status same).trans herase⟩

/-- The path of the status, or of a node in it, begins with the key of the status. -/
theorem exists_steps_of_statusPath {sub : Option String} {p : Path}
    (h : statusPath sub = .ok p) : ∃ rest, p.steps = .key statusKey :: rest := by
  cases sub with
  | none =>
    cases h
    exact ⟨[], rfl⟩
  | some text =>
    cases hq : Path.read text with
    | error error =>
      rw [statusPath, hq] at h
      cases h
    | ok q =>
      rw [statusPath, hq] at h
      cases h
      exact ⟨q.steps, rfl⟩

theorem MadeFrom.apply (h : MadeFrom fields resource) (change : Change) :
    MadeFrom fields (resource.apply change) := by
  obtain ⟨left, hobject, -⟩ := h.object
  cases change with
  | setStatus status =>
    rw [Resource.apply, setStatus, hobject]
    exact h.insert hobject status.toValue
  | editStatus sub edits =>
    rw [Resource.apply, editStatus]
    cases hp : statusPath sub with
    | error error => exact h
    | ok p =>
      obtain ⟨rest, hsteps⟩ := exists_steps_of_statusPath hp
      have hwrite : ∃ child, (resource.object.scopeAt p edits).2 =
          .mapping (Fields.insert statusKey child left) := by
        rw [Value.scopeAt, Value.editAt_eq, hsteps, hobject]
        exact Value.zoom_mapping _ statusKey rest left
      obtain ⟨child, hleft⟩ := hwrite
      dsimp only
      rw [hleft]
      exact h.insert hobject child

theorem MadeFrom.applyAll (h : MadeFrom fields resource) (changes : List Change) :
    MadeFrom fields (resource.applyAll changes) := by
  induction changes generalizing resource with
  | nil => exact h
  | cons change rest ih => exact ih (h.apply change)

/-- The identity is the one that the object has now. -/
theorem MadeFrom.ofValue_object (h : MadeFrom fields resource) :
    ofValue resource.object = .ok resource := by
  obtain ⟨left, hobject, herase⟩ := h.object
  have hidentity : resource.identity = .ofObject (.mapping left) :=
    h.identity.trans (Identity.ofObject_of_erase herase).symm
  have hwrapped : ofValue (.mapping left) = .ok ⟨.mapping left, .ofObject (.mapping left)⟩ := rfl
  rw [hobject, hwrapped, ← hidentity, ← hobject]

theorem exists_madeFrom {object : Value} (h : ofValue object = .ok resource) :
    ∃ fields, MadeFrom fields resource := by
  cases object with
  | mapping fields =>
    cases h
    exact ⟨fields, rfl, fields, rfl, rfl⟩
  | _ => cases h

/-- However the status of a resource is edited or set, with edits that succeed and edits that fail,
the object is the one it was beside the status, and wrapping it again gives the identity that was
read off it at first. -/
theorem identity_applyAll (fields : Fields Value) (changes : List Change) :
    ∃ resource, ofValue (.mapping fields) = .ok resource ∧
      (resource.applyAll changes).identity = resource.identity ∧
      ∃ left, (resource.applyAll changes).object = .mapping left ∧
        Fields.erase statusKey left = Fields.erase statusKey fields ∧
        ofValue (resource.applyAll changes).object = .ok (resource.applyAll changes) := by
  let resource : Resource := ⟨.mapping fields, .ofObject (.mapping fields)⟩
  have made : MadeFrom fields (resource.applyAll changes) :=
    MadeFrom.applyAll ⟨rfl, fields, rfl, rfl⟩ changes
  obtain ⟨left, hobject, herase⟩ := made.object
  exact ⟨resource, rfl, made.identity, left, hobject, herase, made.ofValue_object⟩

end Resource

end DocPath
