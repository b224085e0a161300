import DocPath.Proofs.Publishing
import DocPath.Proofs.StatusRoot

/-!
# Editing a status in place and editing a detached copy

The status of a resource can be edited through a scope on it, or it can be taken out of the object,
edited by itself and put back. An edit of the detached copy is one on the document whose root is its
mapping, and that is what the scope has for its node, so the two go side by side: each edit answers
the same and leaves the same node, also one that fails. At the start a scope takes a status that is
missing or null for an empty mapping, as the detached copy does.
-/

namespace DocPath

/-- One thing done to a detached status. -/
inductive StatusEdit where
  | get (address : Address)
  | set (address : Address) (value : Value)
  | remove (address : Address)
  | merge (incoming : Status)

namespace StatusEdit

/-- The same thing done through a scope. -/
def toEdit : StatusEdit → Edit
  | .get address => .get address
  | .set address value => .set address value
  | .remove address => .remove address
  | .merge incoming => .merge incoming.toValue

/-- Does one edit on a status. -/
def run : StatusEdit → Status → Reply × Status
  | .get address, status => (.ofOption (status.get address), status)
  | .set address value, status =>
    let (result, status) := status.set address value
    (.ofUnit result, status)
  | .remove address, status =>
    let (result, status) := status.remove address
    (.ofOption result, status)
  | .merge incoming, status => (.done, status.merge incoming)

/-- Does edits one after the other, each on what the last one left. -/
def runAll : List StatusEdit → Status → List (Reply × Status) × Status
  | [], status => ([], status)
  | edit :: rest, status =>
    let (reply, status) := run edit status
    let (trace, left) := runAll rest status
    ((reply, status) :: trace, left)

/-- One edit answers and leaves the same on the status and through a scope on its mapping. -/
theorem run_toEdit (base : Option Path) (edit : StatusEdit) (status : Status) :
    edit.toEdit.run base status.toValue = ((edit.run status).1, (edit.run status).2.toValue) := by
  cases edit with
  | get address => rw [toEdit, Edit.run, run, status.get_eq]
  | set address value =>
    obtain ⟨hresult, hleft⟩ := status.set_eq address value
    simp only [toEdit, Edit.run, run, hresult, hleft]
  | remove address =>
    obtain ⟨hresult, hleft⟩ := status.remove_eq address
    simp only [toEdit, Edit.run, run, hresult, hleft]
  | merge incoming =>
    rw [toEdit, Edit.run, Status.toValue, Status.toValue, Value.merge_mapping_mapping]
    rfl

/-- So do many, after every one of them. -/
theorem runAll_toEdit (base : Option Path) (edits : List StatusEdit) (status : Status) :
    Edit.runAll base (edits.map toEdit) status.toValue =
      ((runAll edits status).1.map fun entry => (entry.1, entry.2.toValue),
        (runAll edits status).2.toValue) := by
  induction edits generalizing status with
  | nil => rw [List.map_nil, Edit.runAll, runAll, List.map_nil]
  | cons edit rest ih =>
    have hstep := run_toEdit base edit status
    have hrest := ih (edit.run status).2
    simp only [List.map_cons, Edit.runAll, runAll, hstep, hrest]

end StatusEdit

/-- A scope under a key of a mapping opens what is there, and what it leaves is put there. -/
theorem Value.scopeAt_key {name : String} {fields : Fields Value} {opened left : Value}
    {trace : List (Reply × Value)} {edits : List Edit}
    (hopened : (slot (.key name) (.mapping fields)).orEmpty = opened)
    (hrun : Edit.runAll (some (.single (.key name))) edits opened = (trace, left)) :
    scopeAt (.mapping fields) (.single (.key name)) edits =
      (.ok (opened, trace), .mapping (Fields.insert name left fields)) := by
  have hprepare : prepare (.key name) (.mapping fields) = (none, .mapping fields) := rfl
  rw [scopeAt, editAt_eq, Path.single, zoom_cons_of_prepare _ hprepare]
  simp only [zoom, hopened]
  rw [← Path.single, hrun]
  rfl

namespace Resource

variable {resource : Resource}

/-- A status that is missing, null or a mapping is opened as the mapping that a detached copy is. -/
theorem orEmpty_slot_status
    (h : ∀ v, resource.object.child? (.key statusKey) = some v → v = .null ∨ v.isMapping = true) :
    (Value.slot (.key statusKey) resource.object).orEmpty = resource.status.toValue := by
  rw [status_eq, currentStatus]
  cases hc : resource.object.child? (.key statusKey) with
  | none =>
    rw [Value.slot_of_child?_none hc]
    rfl
  | some v =>
    rw [Value.slot_of_child? hc]
    rcases h v hc with rfl | hmap
    · rfl
    · obtain ⟨fields, rfl⟩ := Value.exists_fields_of_isMapping hmap
      rfl

/-- Editing a status in place, and editing a detached copy that is put back afterwards, answer the
same at every edit and leave the same object, however the resource was made and edited before. -/
theorem editStatus_eq_setStatus {object : Value} {base : Resource}
    (hbase : ofValue object = .ok base) (changes : List Change)
    (h : ∀ v, (base.applyAll changes).object.child? (.key statusKey) = some v →
      v = .null ∨ v.isMapping = true) (edits : List StatusEdit) :
    ∃ trace left,
      StatusEdit.runAll edits (base.applyAll changes).status = (trace, left) ∧
      (base.applyAll changes).editStatus none (edits.map StatusEdit.toEdit) =
        (.ok (.single (.key statusKey), (base.applyAll changes).status.toValue,
          trace.map fun entry => (entry.1, entry.2.toValue)),
          (base.applyAll changes).setStatus left) := by
  obtain ⟨fields, made⟩ := exists_madeFrom hbase
  obtain ⟨entries, hobject, -⟩ := (made.applyAll changes).object
  generalize base.applyAll changes = resource at h hobject
  have hopened := orEmpty_slot_status h
  rw [hobject] at hopened
  have hscope := Value.scopeAt_key hopened (StatusEdit.runAll_toEdit _ edits resource.status)
  refine ⟨_, _, rfl, ?_⟩
  rw [editStatus, statusPath, hobject]
  dsimp only
  rw [hscope, setStatus, hobject]
  rfl

/-- A null status, with edits that are malformed, that are turned away at the root, that fail on
their way and leave what they had made, and a merge. -/
theorem editStatus_eq_setStatus_failing :
    let object : Value := .mapping [("kind", .text "Db"), ("status", .null)]
    let base : Resource := ⟨object, .ofObject object⟩
    let edits : List StatusEdit := [.get (.text "a["), .set (.text "[0]") .null,
      .set (.steps [.key "a", .index 0x4000000000000000]) (.int 1), .remove (.text "b.c"),
      .merge ⟨[("a", .mapping [("x", .int 2)])]⟩, .remove (.text "a.x")]
    let trace : List (Reply × Status) := [
      (.failed (.invalidPath "a[" (.unterminated "a[")), ⟨[]⟩),
      (.failed (.typeMismatch "." .array .object), ⟨[]⟩),
      (.failed (.indexTooLarge "a" 0x4000000000000000), ⟨[("a", .sequence [])]⟩),
      (.failed (.notResolvable "b"), ⟨[("a", .sequence [])]⟩),
      (.done, ⟨[("a", .mapping [("x", .int 2)])]⟩),
      (.found (some (.int 2)), ⟨[("a", .mapping [])]⟩)]
    let left : Status := ⟨[("a", .mapping [])]⟩
    (ofValue object = .ok base ∧ ∀ v, base.object.child? (.key statusKey) = some v →
      v = .null ∨ v.isMapping = true) ∧
    StatusEdit.runAll edits base.status = (trace, left) ∧
    base.editStatus none (edits.map StatusEdit.toEdit) =
      (.ok (.single (.key statusKey), .mapping [],
        trace.map fun entry => (entry.1, entry.2.toValue)), base.setStatus left) := by
  intro object base edits trace left
  have hbase : ofValue object = .ok base := rfl
  have hstatus : ∀ v, base.object.child? (.key statusKey) = some v →
      v = .null ∨ v.isMapping = true := by
    intro v hv
    cases hv
    exact .inl rfl
  have hvalue : StatusEdit.runAll edits base.status = (trace, left) := rfl
  obtain ⟨_, _, hrun, hedit⟩ := editStatus_eq_setStatus hbase [] hstatus edits
  obtain ⟨rfl, rfl⟩ := Prod.mk.inj (hvalue.symm.trans hrun)
  exact ⟨⟨hbase, hstatus⟩, hvalue, hedit⟩

end Resource

end DocPath
