import DocPath.Proofs.DetachedStatus

/-!
# Runs of edits on a status and on a document

A write takes the mapping out of a status, works on it as the root of a document, and puts the root
back; a root that was anything but a mapping would leave an empty status behind. No write makes such
a root, whether it succeeds or fails, so a status and the document with its mapping at the root go
through any edits side by side: they answer the same each time, and the status holds the mapping
that the document has become.
-/

namespace DocPath

namespace StatusEdit

/-- The same thing done to a document; another status is merged as the mapping that it is. -/
def runOn : StatusEdit → Value → Reply × Value
  | .get address, document => (.ofOption (document.get address), document)
  | .set address value, document =>
    let (result, document) := document.set address value
    (.ofUnit result, document)
  | .remove address, document =>
    let (result, document) := document.remove address
    (.ofOption result, document)
  | .merge incoming, document => (.done, document.merge incoming.toValue)

/-- Does edits one after the other on a document, each on what the last one left. -/
def runAllOn : List StatusEdit → Value → List (Reply × Value) × Value
  | [], document => ([], document)
  | edit :: rest, document =>
    let (reply, document) := runOn edit document
    let (trace, left) := runAllOn rest document
    ((reply, document) :: trace, left)

/-- What an edit does to a document it does through a scope on all of it. -/
theorem runOn_eq_run (edit : StatusEdit) (document : Value) :
    edit.runOn document = edit.toEdit.run none document := by
  cases edit <;> rw [toEdit, Edit.run, runOn]

/-- One edit answers the same on a status and on its document, and leaves the same mapping. -/
theorem runOn_toValue (edit : StatusEdit) (status : Status) :
    edit.runOn status.toValue = ((edit.run status).1, (edit.run status).2.toValue) := by
  rw [runOn_eq_run, run_toEdit]

/-- So do many, after every one of them. -/
theorem runAllOn_toValue (edits : List StatusEdit) (status : Status) :
    runAllOn edits status.toValue =
      ((runAll edits status).1.map fun entry => (entry.1, entry.2.toValue),
        (runAll edits status).2.toValue) := by
  induction edits generalizing status with
  | nil => rw [runAllOn, runAll, List.map_nil]
  | cons edit rest ih =>
    simp only [runAllOn, runAll, runOn_toValue, ih (edit.run status).2, List.map_cons]

end StatusEdit

/-- A status and the document with its mapping at the root give the same answer to every edit of a
run, errors included, and after every edit the status holds the mapping that the document has
become. The root that a write puts back is a mapping, at well-formed paths and at others. -/
theorem StatusEdit.runAll_agrees_with_document (status : Status) (edits : List StatusEdit) :
    runAllOn edits status.toValue =
      ((runAll edits status).1.map fun entry => (entry.1, entry.2.toValue),
        (runAll edits status).2.toValue) ∧
    ∀ (before : Status) (address : Address),
      (∀ v, (before.toValue.set address v).2.toFields? = some (before.set address v).2.fields) ∧
      (before.toValue.remove address).2.toFields? = some (before.remove address).2.fields := by
  refine ⟨runAllOn_toValue edits status, fun before address => ⟨fun v => ?_, ?_⟩⟩
  · rw [← (before.set_eq address v).2]
    rfl
  · rw [← (before.remove_eq address).2]
    rfl

end DocPath
