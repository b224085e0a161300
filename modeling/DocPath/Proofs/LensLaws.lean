import DocPath.Proofs.Write

/-!
# Three walks along one path

A path is walked to read a node, to edit one in place, and to write one. The first two create
nothing. Where they find a node, the third one has nothing to create either and comes to the same
node, so that writing what is there changes nothing, and writing something else is editing in place.
Whatever a write created before, the next write along the path finds as if it had created it itself.
-/

namespace DocPath

namespace Value

variable {α : Type}

/-- Editing in place finds the node that reading finds, and puts it back as the edit leaves it. -/
theorem update?_eq (edit : Value → α × Value) (p : List Step) (v : Value) :
    update? edit p v = (get? p v).map fun node => ((edit node).1, put (edit node).2 p v) := by
  induction p generalizing v with
  | nil => rfl
  | cons step rest ih =>
    rw [update?]
    cases hc : child? step v with
    | none =>
      rw [get?_cons_of_child?_none hc]
      rfl
    | some child =>
      dsimp only
      rw [ih, get?_cons_of_child? hc, Option.map_map]
      simp only [put, slot_of_child? hc]
      rfl

section

variable {d node : Value} {p : Path}

theorem updateAt_of_getAt (h : d.getAt p = some node) (edit : Value → α × Value) :
    d.updateAt p edit = some ((edit node).1, put (edit node).2 p.steps d) := by
  rw [getAt] at h
  rw [updateAt, update?_eq, h]
  rfl

/-- A write that comes to a node that is there creates nothing on its way. -/
theorem editAt_of_getAt (h : d.getAt p = some node) (edit : Value → α × Value) :
    d.editAt p edit = (.ok (edit node).1, put (edit node).2 p.steps d) :=
  (editAt_eq_ok edit).2 (zoom_of_get? edit h)

/-- A write that got through leaves nothing behind that a second one would not make anew. -/
theorem setAt_setAt {d' u : Value} (h : d.setAt p u = (.ok (), d')) (v : Value) :
    d'.setAt p v = (.ok (), put v p.steps d') ∧ d.setAt p v = (.ok (), put v p.steps d') := by
  obtain ⟨node, -, hget, hother⟩ := zoom_ok _ ((editAt_eq_ok _).1 h)
  exact ⟨editAt_of_getAt hget _, (editAt_eq_ok _).2 (hother _)⟩

end

/-- How the walks along a path go together that read, edit in place and write. -/
structure WalksAgree (d : Value) (p : Path) : Prop where
  /-- Editing in place finds a node just where reading does. -/
  found_iff : ∀ {α : Type} (edit : Value → α × Value),
    (∃ found, d.updateAt p edit = some found) ↔ ∃ node, d.getAt p = some node
  /-- It is the node that is read, and the one that a write edits. -/
  same_node : ∀ node, d.getAt p = some node → ∀ {α : Type} (edit : Value → α × Value), ∃ left,
    d.updateAt p edit = some ((edit node).1, left) ∧
      d.editAt p edit = (.ok (edit node).1, left) ∧ left.getAt p = some (edit node).2
  /-- Asking a write for it changes nothing. -/
  entry : ∀ node, d.getAt p = some node → d.entryAt p = (.ok node, d)
  /-- Storing a value in place is writing it. -/
  stored : ∀ node v, d.getAt p = some node → ∃ left,
    d.updateAt p (fun _ => ((), v)) = some ((), left) ∧ d.setAt p v = (.ok (), left)
  /-- Writing what is there changes nothing. -/
  put_back : ∀ node, d.getAt p = some node → d.setAt p node = (.ok (), d)
  /-- Of two writes only the second one counts. -/
  overwritten : ∀ u v left, d.setAt p u = (.ok (), left) → ∃ final,
    left.setAt p v = (.ok (), final) ∧ d.setAt p v = (.ok (), final)

/-- Reading, editing in place and writing agree on every document along every path. -/
theorem walksAgree (d : Value) (p : Path) : WalksAgree d p := by
  constructor
  case found_iff =>
    intro α edit
    rw [updateAt, update?_eq, getAt]
    cases get? p.steps d <;> simp
  case same_node =>
    intro node h α edit
    exact ⟨_, updateAt_of_getAt h edit, editAt_of_getAt h edit, get?_put h (edit node).2⟩
  case entry =>
    intro node h
    rw [entryAt, editAt_of_getAt h, put_self h]
  case stored => exact fun node v h => ⟨_, updateAt_of_getAt h _, editAt_of_getAt h _⟩
  case put_back =>
    intro node h
    rw [setAt, editAt_of_getAt h, put_self h]
  case overwritten => exact fun u v left h => ⟨_, setAt_setAt h v⟩

end Value

end DocPath
