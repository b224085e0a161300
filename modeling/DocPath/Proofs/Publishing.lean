import DocPath.Pipeline.Run
import DocPath.Proofs.CachedIdentity
import DocPath.Proofs.DeepMerge
import Mathlib

/-!
# Publishing a status

To publish is to call the updater, once, and to answer what it answers. It is handed the object of
the resource with the merged status in it, and the identity of the resource. A published object that
is wrapped and published again with the same status is handed over as it is, because a merge takes
in nothing twice.
-/

namespace DocPath

theorem Status.merge_merge_self {incoming : Status} (ordered : incoming.toValue.Ordered)
    (status : Status) : (status.merge incoming).merge incoming = status.merge incoming := by
  have hvalue := Value.merge_merge_self ordered status.toValue
  simp only [Status.toValue, Value.merge_mapping_mapping, Value.mapping.injEq] at hvalue
  exact congrArg Status.mk hvalue

namespace Resource

variable {resource : Resource}

/-- The status in an object, as fields: none if there is none, or if it is no mapping. -/
def currentStatus (object : Value) : Fields Value :=
  match object.child? (.key statusKey) with
  | some (.mapping fields) => fields
  | _ => []

theorem status_eq (resource : Resource) : resource.status = ⟨currentStatus resource.object⟩ := by
  rw [Resource.status, currentStatus]
  cases resource.object with
  | mapping fields =>
    simp only [Value.toFields?, Option.bind_some, Value.child?]
    cases Fields.get? statusKey fields with
    | none => rfl
    | some v => cases v <;> rfl
  | _ => rfl

/-- A status that was put into an object is the one that it has. -/
theorem status_setStatus (h : resource.object.isMapping = true) (status : Status) :
    (resource.setStatus status).status = status := by
  obtain ⟨fields, hobject⟩ := Value.exists_fields_of_isMapping h
  have hget := Fields.get?_insert_self statusKey status.toValue fields
  rw [status_eq, currentStatus, setStatus, hobject, Value.child?, hget]
  rfl

/-- Of two statuses put in one after the other the later stays. -/
theorem setStatus_setStatus (resource : Resource) (first second : Status) :
    (resource.setStatus first).setStatus second = resource.setStatus second := by
  cases hobject : resource.object with
  | mapping fields =>
    have hlater := Fields.insert_insert statusKey first.toValue second.toValue fields
    simp only [setStatus, hobject, hlater]
  | _ => simp only [setStatus, hobject]

/-- The identity is not in the status. -/
theorem ref_setStatus (resource : Resource) (status : Status) (plural : Option String) :
    (resource.setStatus status).ref plural = resource.ref plural := by
  rw [setStatus]
  split <;> rfl

end Resource

/-- What an updater was told, call by call. -/
abbrev Calls := List (ObjectRef × Value)

/-- An updater that notes down what it is told and gives an answer. -/
def Updater.recording (answer : ObjectRef → Value → Except Failure Unit) :
    Updater (StateM Calls) := fun target object => do
  modify fun calls => calls ++ [(target, object)]
  answer target object

namespace Pipeline

/-- What an updater is told of a resource: whom it is about, and the object with the merged status
in it. -/
structure Published (pipeline : Pipeline) (resource : Resource) (incoming : Status)
    (target : ObjectRef) (object : Value) : Prop where
  gvk : target.gvk = resource.identity.gvk
  name : target.name = resource.identity.name
  namespaceName : target.namespaceName = resource.identity.namespaceName
  plural : target.plural =
    if pipeline.workflow.crdPlural = "" then none else some pipeline.workflow.crdPlural
  /-- Beside the status, the object is the one of the resource. -/
  beside : ∀ key, key ≠ statusKey →
    object.child? (.key key) = resource.object.child? (.key key)
  status : object.child? (.key statusKey) =
    some (.mapping (Fields.merge (Resource.currentStatus resource.object) incoming.fields))

/-- The resource as it is published. -/
def merged (resource : Resource) (incoming : Status) : Resource :=
  resource.setStatus (resource.status.merge incoming)

theorem publish_some {m : Type → Type} [Monad m] (pipeline : Pipeline) (update : Updater m)
    (resource : Resource) (incoming : Status) :
    pipeline.publish (some update) resource incoming =
      update (resource.ref (some pipeline.workflow.crdPlural))
        (merged resource incoming).object := rfl

theorem published_merged (pipeline : Pipeline) {resource : Resource}
    (h : resource.object.isMapping = true) (incoming : Status) :
    Published pipeline resource incoming (resource.ref (some pipeline.workflow.crdPlural))
      (merged resource incoming).object := by
  obtain ⟨fields, hobject⟩ := Value.exists_fields_of_isMapping h
  have hmerged : (merged resource incoming).object =
      .mapping (Fields.insert statusKey (resource.status.merge incoming).toValue fields) := by
    rw [merged, Resource.setStatus, hobject]
  constructor
  case gvk => rfl
  case name => rfl
  case namespaceName => rfl
  case plural =>
    rw [Resource.ref]
    by_cases hempty : pipeline.workflow.crdPlural = "" <;> simp [hempty]
  case beside =>
    intro key hkey
    rw [hmerged, hobject]
    exact Fields.get?_insert_of_ne hkey _ fields
  case status =>
    rw [hmerged, Value.child?, Fields.get?_insert_self, Resource.status_eq]
    rfl

/-- What was published once is published again as it is. -/
theorem merged_merged {resource : Resource} (h : resource.object.isMapping = true)
    {incoming : Status} (ordered : incoming.toValue.Ordered) :
    merged (merged resource incoming) incoming = merged resource incoming := by
  have hstatus : (merged resource incoming).status = resource.status.merge incoming :=
    Resource.status_setStatus h _
  rw [merged, hstatus, Status.merge_merge_self ordered, merged, Resource.setStatus_setStatus]

/-- Publishing a status of a resource, however that was made and edited, is one call of the updater
and ends as that call ends. Without an updater nothing is called. The object that is handed over can
be wrapped again, and publishing the same status from there makes the same call. -/
theorem publish_calls_once (pipeline : Pipeline) {object : Value} {base : Resource}
    (hbase : Resource.ofValue object = .ok base) (changes : List Resource.Change)
    {incoming : Status} (ordered : incoming.toValue.Ordered) :
    ∃ target published again,
      Published pipeline (base.applyAll changes) incoming target published ∧
      (∀ {m : Type → Type} [Monad m] (update : Updater m),
        pipeline.publish (some update) (base.applyAll changes) incoming =
          update target published) ∧
      (∀ answer calls,
        (pipeline.publish (some (.recording answer)) (base.applyAll changes) incoming).run.run
          calls = (answer target published, calls ++ [(target, published)])) ∧
      (∀ calls,
        (pipeline.publish none (base.applyAll changes) incoming :
          ExceptT Failure (StateM Calls) Unit).run.run calls =
            (.error (.pipeline .noUpdater), calls)) ∧
      Resource.ofValue published = .ok again ∧
      (∀ {m : Type → Type} [Monad m] (update : Updater m),
        pipeline.publish (some update) again incoming = update target published) := by
  obtain ⟨fields, made⟩ := Resource.exists_madeFrom hbase
  have made := made.applyAll changes
  generalize base.applyAll changes = resource at made
  obtain ⟨left, hobject, -⟩ := made.object
  have hmapping : resource.object.isMapping = true := by
    rw [hobject]
    rfl
  let target := resource.ref (some pipeline.workflow.crdPlural)
  have hagain : Resource.ofValue (merged resource incoming).object =
      .ok (merged resource incoming) :=
    Resource.MadeFrom.ofValue_object (made.apply (.setStatus (resource.status.merge incoming)))
  refine ⟨target, (merged resource incoming).object, merged resource incoming,
    published_merged pipeline hmapping incoming, ?_, ?_, ?_, hagain, ?_⟩
  · exact fun update => publish_some pipeline update resource incoming
  · exact fun answer calls => rfl
  · exact fun calls => rfl
  · intro m _ update
    have htarget : (merged resource incoming).ref (some pipeline.workflow.crdPlural) = target :=
      Resource.ref_setStatus resource _ _
    rw [publish_some, merged_merged hmapping ordered, htarget]

/-- A status that was set before it is published, and one that adds to a mapping in it. -/
theorem publish_calls_once_nested :
    let pipeline : Pipeline :=
      { standard with workflow := { Workflow.empty with crdPlural := "dbs" } }
    let object : Value := .mapping [("kind", .text "Db")]
    let base : Resource := ⟨object, .ofObject object⟩
    let changes : List Resource.Change := [.setStatus ⟨[("a", .mapping [("x", .int 1)])]⟩]
    let incoming : Status := ⟨[("a", .mapping [("y", .int 2)])]⟩
    (Resource.ofValue object = .ok base ∧ incoming.toValue.Ordered) ∧
      ∃ target published,
        (pipeline.publish (some (.recording fun _ _ => .ok ())) (base.applyAll changes)
          incoming).run.run [] = (.ok (), [(target, published)]) ∧
        target.plural = some "dbs" ∧
        published.child? (.key "kind") = some (.text "Db") ∧
        published.child? (.key "status") =
          some (.mapping [("a", .mapping [("x", .int 1), ("y", .int 2)])]) := by
  intro pipeline object base changes incoming
  have hbase : Resource.ofValue object = .ok base := rfl
  have hinner : Value.Ordered (.mapping [("y", .int 2)]) :=
    .mapping (List.pairwise_singleton _ _) (by simpa using Value.Ordered.scalar rfl)
  have ordered : incoming.toValue.Ordered :=
    .mapping (List.pairwise_singleton _ _) (by simpa [incoming] using hinner)
  obtain ⟨target, published, again, told, -, hcalls, -, -, -⟩ :=
    publish_calls_once pipeline hbase changes ordered
  refine ⟨⟨hbase, ordered⟩, target, published, hcalls _ [], told.plural, ?_, ?_⟩
  · exact told.beside "kind" (by decide)
  · refine told.status.trans ?_
    cbv

end Pipeline

end DocPath
