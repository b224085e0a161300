import DocPath.Document.Scope
import DocPath.Proofs.Removal

/-!
# A scope is a lens

Edits through a scope give paths that start at its node. The same edits can be done on the document
itself, each at the path of the scope joined with its own (`Edit.runAt`), and nested scopes then are
nothing but longer paths. Both ways leave the same document after every edit and give the same
replies, but that an error names more steps when the walk began at the root.

What carries the induction is that at every moment the document is the one in which the scope was
opened, with the node of the scope put at its path.
-/

namespace DocPath

open Value

/-- Opens the node at a path: it is created as needed, and null becomes an empty mapping. -/
def Value.openAt (document : Value) (p : Path) : Except AccessError Value × Value :=
  document.editAt p fun child => (child.orEmpty, child.orEmpty)

mutual

/-- Does on a document what an edit does through a scope at `base`. -/
def Edit.runAt (base : Path) : Edit → Value → Reply × Value
  | .get address, d => match address.resolve with
    | .error error => (.failed error, d)
    | .ok q => (.found (d.getAt (base.join q)), d)
  | .set address value, d => match address.resolve with
    | .error error => (.failed error, d)
    | .ok q =>
      let (result, d) := d.setAt (base.join q) value
      (.ofUnit result, d)
  | .remove address, d => match address.resolve with
    | .error error => (.failed error, d)
    | .ok q =>
      let (result, d) := d.removeAt (base.join q)
      (.ofOption result, d)
  | .merge value, d =>
    let (result, d) := d.editAt base fun node => ((), node.merge value)
    (.ofUnit result, d)
  | .assign value, d =>
    let (result, d) := d.setAt base value
    (.ofUnit result, d)
  | .scope address edits, d => match address.resolve with
    | .error error => (.failed error, d)
    | .ok q => match d.openAt (base.join q) with
      | (.error error, d) => (.failed error, d)
      | (.ok node, d) =>
        let (trace, d) := Edit.runAllAt (base.join q) edits d
        (.opened (base.join q) node trace, d)

/-- Does edits one after the other, each on the document that the last one left. -/
def Edit.runAllAt (base : Path) : List Edit → Value → List (Reply × Value) × Value
  | [], d => ([], d)
  | edit :: rest, d =>
    let (reply, d) := Edit.runAt base edit d
    let (trace, left) := Edit.runAllAt base rest d
    ((reply, d) :: trace, left)

end

/-- The address that an edit is about, if it gives one. -/
def Edit.address? : Edit → Option Address
  | .get address | .set address _ | .remove address | .scope address _ => some address
  | .merge _ | .assign _ => none

/-- Two errors of one and the same failure after the first steps of `q`: the one counts from the
node of a scope, the other from the root of the document and through `base`. -/
inductive SameFailure (base q : Path) : AccessError → AccessError → Prop where
  | typeMismatch (j : Nat) (expected : Container) (actual : Kind) :
    SameFailure base q (.typeMismatch (q.location j) expected actual)
      (.typeMismatch ((base.join q).location (base.length + j)) expected actual)
  | indexTooLarge (j : Nat) (index : UInt64) :
    SameFailure base q (.indexTooLarge (q.location j) index)
      (.indexTooLarge ((base.join q).location (base.length + j)) index)
  | notResolvable (j : Nat) :
    SameFailure base q (.notResolvable (q.textUpTo j))
      (.notResolvable ((base.join q).textUpTo (base.length + j)))

mutual

/-- The replies that a scope at a path and the document give to one edit. -/
inductive Edit.Agree : Path → Edit → Reply → Reply → Prop where
  | done {base : Path} (edit : Edit) : Agree base edit .done .done
  | found {base : Path} (edit : Edit) (value : Option Value) :
    Agree base edit (.found value) (.found value)
  | malformed {base : Path} {edit : Edit} {address : Address} {error : AccessError}
    (about : edit.address? = some address) (h : address.resolve = .error error) :
    Agree base edit (.failed error) (.failed error)
  | failed {base q : Path} {edit : Edit} {address : Address} {inScope inDocument : AccessError}
    (about : edit.address? = some address) (h : address.resolve = .ok q)
    (same : SameFailure base q inScope inDocument) :
    Agree base edit (.failed inScope) (.failed inDocument)
  | opened {base q : Path} {address : Address} {edits : List Edit} {node start : Value}
    {inScope inDocument : List (Reply × Value)} (h : address.resolve = .ok q)
    (there : start.getAt (base.join q) = some node)
    (inner : AllAgree (base.join q) start edits inScope inDocument) :
    Agree base (.scope address edits) (.opened (base.join q) node inScope)
      (.opened (base.join q) node inDocument)

/-- The traces that a scope at a path, opened in a document, and the document itself leave of some
edits. After each edit the document is the one of the opening with the node of the scope put in. -/
inductive Edit.AllAgree : Path → Value → List Edit → List (Reply × Value) → List (Reply × Value) →
    Prop where
  | nil {base : Path} {start : Value} : AllAgree base start [] [] []
  | cons {base : Path} {start node document : Value} {edit : Edit} {edits : List Edit}
    {inScope inDocument : Reply} {scopeTrace documentTrace : List (Reply × Value)}
    (reply : Agree base edit inScope inDocument)
    (there : document.getAt base = some node)
    (elsewhere : start.setAt base node = (.ok (), document))
    (rest : AllAgree base start edits scopeTrace documentTrace) :
    AllAgree base start (edit :: edits) ((inScope, node) :: scopeTrace)
      ((inDocument, document) :: documentTrace)

end

theorem Halt.error_below (base q : Path) (halt : Halt) :
    SameFailure base q (halt.error q) ((halt.below base.length).error (base.join q)) := by
  obtain ⟨depth, obstacle⟩ := halt
  cases obstacle with
  | wrongKind needed found => exact .typeMismatch depth needed found
  | tooLarge index => exact .indexTooLarge depth index
  | missing => exact .notResolvable (depth + 1)

variable {base q : Path} {d node : Value} {edit : Edit} {address : Address}

/-- The replies to a write along `q`, told in the two ways. -/
theorem agree_ofUnit (about : edit.address? = some address) (h : address.resolve = .ok q)
    (result : Except Halt Unit) :
    Edit.Agree base edit (.ofUnit (result.mapError (Halt.error q)))
      (.ofUnit (result.mapError fun halt => (halt.below base.length).error (base.join q))) := by
  cases result with
  | ok done => exact .done edit
  | error halt => exact .failed about h (halt.error_below base q)

/-- The replies to a removal along `q`, told in the two ways. -/
theorem agree_ofOption (about : edit.address? = some address) (h : address.resolve = .ok q)
    (result : Except Halt (Option Value)) :
    Edit.Agree base edit (.ofOption (result.mapError (Halt.error q)))
      (.ofOption (result.mapError fun halt => (halt.below base.length).error (base.join q))) := by
  cases result with
  | ok value => exact .found edit value
  | error halt => exact .failed about h (halt.error_below base q)

/-- What a scope that could be opened is: the node is there, and whatever is done through the scope
is put back there. -/
theorem openAt_ok {opened d₀ : Value} (h : d.openAt q = (.ok opened, d₀)) :
    d₀.getAt q = some opened ∧ ∀ {α : Type} (edit : Value → α × Value),
      (d.editAt q fun child => edit child.orEmpty) =
        (.ok (edit opened).1, put (edit opened).2 q.steps d₀) := by
  obtain ⟨child, rfl, hget, hother⟩ := zoom_ok _ ((editAt_eq_ok _).1 h)
  exact ⟨hget, fun edit => (editAt_eq_ok _).2 (hother _)⟩

/-- A scope that could not be opened fails alike for all that is to be done through it. -/
theorem openAt_error {d₀ : Value} {error : AccessError} (h : d.openAt q = (.error error, d₀)) :
    ∃ halt, error = halt.error q ∧ zoom (fun child => (child.orEmpty, child.orEmpty)) q.steps d =
      (.error halt, d₀) := by
  rw [openAt, editAt_eq] at h
  rcases hz : zoom (fun child => (child.orEmpty, child.orEmpty)) q.steps d with ⟨halt | a, v⟩
  · rw [hz] at h
    cases h
    exact ⟨halt, rfl, rfl⟩
  · rw [hz] at h
    cases h

/-- Opening a scope along a joined path is opening it at the inner node and putting that back. -/
theorem openAt_join (h : d.getAt base = some node) :
    d.openAt (base.join q) =
      ((zoom (fun child => (child.orEmpty, child.orEmpty)) q.steps node).1.mapError
          fun halt => (halt.below base.length).error (base.join q),
        put (node.openAt q).2 base.steps d) :=
  editAt_join _ h q

/-- An edit at a malformed path does nothing, and both ways say so in the same words. -/
theorem Edit.run_agree_of_malformed {error : AccessError} (about : edit.address? = some address)
    (hq : address.resolve = .error error) (h : d.getAt base = some node) :
    ∃ inScope inDocument left, Edit.run (some base) edit node = (inScope, left) ∧
      Edit.runAt base edit d = (inDocument, put left base.steps d) ∧
      Edit.Agree base edit inScope inDocument := by
  refine ⟨.failed error, .failed error, node, ?_, ?_, .malformed about hq⟩
  · cases edit <;> cases about <;>
      simp only [Edit.run, Value.get, Value.set, Value.remove, hq] <;> rfl
  · rw [put_self h]
    cases edit <;> cases about <;> simp only [Edit.runAt, hq]

/-- Agreement on a nested scope, from agreement on what is done through it. -/
theorem Edit.run_scope_agree {edits : List Edit} (h : d.getAt base = some node)
    (hq : address.resolve = .ok q)
    (ih : ∀ (node : Value) {start old : Value}, start.getAt (base.join q) = some old →
      ∃ inScope inDocument left, Edit.runAll (some (base.join q)) edits node = (inScope, left) ∧
        Edit.runAllAt (base.join q) edits (put node (base.join q).steps start) =
          (inDocument, put left (base.join q).steps start) ∧
        Edit.AllAgree (base.join q) start edits inScope inDocument) :
    ∃ inScope inDocument left, Edit.run (some base) (.scope address edits) node = (inScope, left) ∧
      Edit.runAt base (.scope address edits) d = (inDocument, put left base.steps d) ∧
      Edit.Agree base (.scope address edits) inScope inDocument := by
  have hjoin := openAt_join (q := q) h
  rcases ho : node.openAt q with ⟨error | opened, opening⟩
  · obtain ⟨halt, rfl, hz⟩ := openAt_error ho
    refine ⟨.failed (halt.error q), .failed ((halt.below base.length).error (base.join q)), opening,
      ?_, ?_, .failed rfl hq (halt.error_below base q)⟩
    · simp only [Edit.run, hq, editAt_eq, zoom_error _ hz, mapError_error]
    · rw [ho, hz] at hjoin
      simp only [Edit.runAt, hq, hjoin, mapError_error]
  · obtain ⟨hget, hedit⟩ := openAt_ok ho
    have hz := (editAt_eq_ok _).1 ho
    rw [ho, hz] at hjoin
    have hthere : (put opening base.steps d).getAt (base.join q) = some opened :=
      (get?_put_append h opening q.steps).trans hget
    obtain ⟨inScope, inDocument, left, hscope, hdocument, hagree⟩ := ih opened hthere
    rw [put_self hthere] at hdocument
    refine ⟨.opened (base.join q) opened inScope, .opened (base.join q) opened inDocument,
      put left q.steps opening, ?_, ?_, .opened hq hthere hagree⟩
    · have hrun := hedit fun opened =>
        let (trace, left) := Edit.runAll (some (base.join q)) edits opened
        (Reply.opened (base.join q) opened trace, left)
      simp only [Edit.run, hq, Scope.nest, hrun, hscope]
    · simp only [Edit.runAt, hq, hjoin, mapError_ok, hdocument]
      rw [Path.join, put_append (get?_put h opening), put_put h]

mutual

/-- One edit through a scope and on the document. -/
theorem Edit.run_agree : ∀ (edit : Edit) {base : Path} {d node : Value},
    d.getAt base = some node → ∃ inScope inDocument left,
      Edit.run (some base) edit node = (inScope, left) ∧
      Edit.runAt base edit d = (inDocument, put left base.steps d) ∧
      Edit.Agree base edit inScope inDocument
  | .get address, base, d, node, h => by
    cases hq : address.resolve with
    | error error => exact Edit.run_agree_of_malformed rfl hq h
    | ok q =>
      refine ⟨.found (node.getAt q), .found (node.getAt q), node, ?_, ?_, .found _ _⟩
      · rw [Edit.run, Value.get, hq]
        rfl
      · simp only [Edit.runAt, hq, put_self h, getAt, Path.join, get?_append_of_get? h]
  | .set address value, base, d, node, h => by
    cases hq : address.resolve with
    | error error => exact Edit.run_agree_of_malformed rfl hq h
    | ok q =>
      refine ⟨_, _, (node.setAt q value).2, ?_, ?_, agree_ofUnit rfl hq
        (zoom (fun _ => ((), value)) q.steps node).1⟩
      · simp only [Edit.run, Value.set, hq, setAt, editAt_eq]
      · simp only [Edit.runAt, hq, setAt, editAt_join _ h, editAt_eq]
  | .remove address, base, d, node, h => by
    cases hq : address.resolve with
    | error error => exact Edit.run_agree_of_malformed rfl hq h
    | ok q =>
      refine ⟨_, _, (node.removeAt q).2, ?_, ?_, agree_ofOption rfl hq
        ((detach q.steps node).map (Option.map Prod.fst))⟩
      · simp only [Edit.run, Value.remove, hq, removeAt_eq]
      · simp only [Edit.runAt, hq, removeAt_join h]
  | .merge value, base, d, node, h => by
    refine ⟨.done, .done, node.merge value, by rw [Edit.run], ?_, .done _⟩
    simp only [Edit.runAt, editAt_eq, zoom_of_get? _ h, mapError_ok, Reply.ofUnit]
  | .assign value, base, d, node, h => by
    refine ⟨.done, .done, value, by rw [Edit.run], ?_, .done _⟩
    simp only [Edit.runAt, setAt, editAt_eq, zoom_of_get? _ h, mapError_ok, Reply.ofUnit]
  | .scope address edits, base, d, node, h => by
    cases hq : address.resolve with
    | error error => exact Edit.run_agree_of_malformed rfl hq h
    | ok q => exact Edit.run_scope_agree h hq fun node => Edit.runAll_agree edits node

/-- Many edits through a scope and on the document. -/
theorem Edit.runAll_agree : ∀ (edits : List Edit) (node : Value) {base : Path}
    {start old : Value}, start.getAt base = some old → ∃ inScope inDocument left,
      Edit.runAll (some base) edits node = (inScope, left) ∧
      Edit.runAllAt base edits (put node base.steps start) =
        (inDocument, put left base.steps start) ∧
      Edit.AllAgree base start edits inScope inDocument
  | [], node, base, start, old, h =>
    ⟨[], [], node, by rw [Edit.runAll], by rw [Edit.runAllAt], .nil⟩
  | edit :: rest, node, base, start, old, h => by
    have hnode : (put node base.steps start).getAt base = some node := get?_put h node
    obtain ⟨reply, reply', next, hscope, hdocument, hagree⟩ := Edit.run_agree edit hnode
    rw [put_put h] at hdocument
    obtain ⟨trace, trace', left, hrest, hrest', hagree'⟩ := Edit.runAll_agree rest next h
    refine ⟨(reply, next) :: trace, (reply', put next base.steps start) :: trace', left, ?_, ?_,
      .cons hagree (get?_put h next) ?_ hagree'⟩
    · simp only [Edit.runAll, hscope, hrest]
    · simp only [Edit.runAllAt, hdocument, hrest']
    · exact (editAt_eq_ok _).2 (zoom_of_get? _ h)

end

/-- A scope on a document is a lens: doing edits through it, and doing them on the document that it
left when it was opened, comes to the same document and to replies that agree. At every moment the
node of the scope is what the document has at its path. -/
theorem Value.scopeAt_agrees {d d₀ opened : Value} {p : Path}
    (h : d.openAt p = (.ok opened, d₀)) (edits : List Edit) :
    d₀.getAt p = some opened ∧ ∃ inScope inDocument final,
      d.scopeAt p edits = (.ok (opened, inScope), final) ∧
      Edit.runAllAt p edits d₀ = (inDocument, final) ∧
      Edit.AllAgree p d₀ edits inScope inDocument := by
  obtain ⟨hget, hedit⟩ := openAt_ok h
  obtain ⟨inScope, inDocument, left, hscope, hdocument, hagree⟩ :=
    Edit.runAll_agree edits opened hget
  rw [put_self hget] at hdocument
  refine ⟨hget, inScope, inDocument, put left p.steps d₀, ?_, hdocument, hagree⟩
  have hrun := hedit fun opened =>
    let (trace, left) := Edit.runAll (some p) edits opened
    ((opened, trace), left)
  simp only [scopeAt, hrun, hscope]

/-- A scope on a null status in which one edit fails and a nested scope is set to a sequence. -/
theorem Value.scopeAt_agrees_status :
    let d : Value := .mapping [("status", .null)]
    let d₀ : Value := .mapping [("status", .mapping [])]
    let p : Path := .single (.key "status")
    let edits : List Edit := [.set (.steps [.key "phase"]) (.text "Ready"),
      .set (.steps [.key "phase", .index 0]) .null,
      .scope (.steps [.key "pods"]) [.assign (.sequence []), .set (.steps [.index 1]) .null]]
    d.openAt p = (.ok (.mapping []), d₀) ∧ ∃ inScope inDocument final,
      d.scopeAt p edits = (.ok (.mapping [], inScope), final) ∧
      Edit.runAllAt p edits d₀ = (inDocument, final) ∧
      Edit.AllAgree p d₀ edits inScope inDocument :=
  ⟨rfl, (Value.scopeAt_agrees rfl _).2⟩

end DocPath
