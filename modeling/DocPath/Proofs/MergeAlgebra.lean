import DocPath.Proofs.LeafWrites
import DocPath.Proofs.Publishing
import Mathlib

/-!
# The algebra of merging

Merging has the empty mapping on both sides as its unit, and nothing changes when something is
merged into itself or merged in again. It is not associative: a node that is no mapping, and that
comes in between two mappings, cuts off the first one for good, while the last two merged by
themselves show no trace of it. That is the only way for the two sides to differ, and they differ
unless the last mapping has everything that the first one has (`merge_assoc_iff`).

Updates of a status can so be published one by one, or merged with each other and published
together, as long as none of them comes in between two mappings like that.
-/

namespace DocPath

open Identity (under)

namespace Value

/-- Under some keys the second of three documents has what is no mapping, while the first and the
third have mappings there. -/
def Interrupted (first second third : Value) : Prop :=
  ∃ keys old x new, under keys first = some (.mapping old) ∧ under keys second = some x ∧
    x.isMapping = false ∧ under keys third = some (.mapping new)

/-- Wherever the second of three documents interrupts two mappings, the third one has everything
that the first one has. -/
def Covered (first second third : Value) : Prop :=
  ∀ keys old x new, under keys first = some (.mapping old) → under keys second = some x →
    x.isMapping = false → under keys third = some (.mapping new) → Fields.merge old new = new

/-- Wherever one document has a mapping the other one has a mapping too. -/
def MappedIn (v w : Value) : Prop :=
  ∀ keys old, under keys v = some (.mapping old) → ∃ new, under keys w = some (.mapping new)

variable {a b c v w x : Value} {key : String} {keys : List String}

/-! ### Unit and idempotence -/

theorem merge_self (ordered : v.Ordered) : v.merge v = v := by
  have hnull : null.merge v = v := merge_into_of_isMapping_false rfl v
  have hagain := merge_merge_self ordered null
  rwa [hnull] at hagain

/-- Merging into an empty mapping takes the incoming one as it is. -/
theorem empty_merge {fields : Fields Value} (ordered : Ordered (.mapping fields)) :
    Fields.merge [] fields = fields := by
  have hmerge : Ordered (.mapping (Fields.merge [] fields)) := by
    rw [← merge_mapping_mapping]
    exact ordered.merge ordered_empty
  refine hmerge.fields.eq_of_get? ordered.fields fun key => ?_
  cases hget : Fields.get? key fields with
  | none => rw [Fields.get?_merge_of_none hget, Fields.get?_nil]
  | some v =>
    rw [Fields.get?_merge_of_some ordered.fields hget, Fields.get?_nil, Option.getD_none,
      merge_into_of_isMapping_false rfl]

/-! ### Associativity -/

theorem covered_of_not_interrupted (h : ¬Interrupted a b c) : Covered a b c :=
  fun keys old x new hold hx hmap hnew => absurd ⟨keys, old, x, new, hold, hx, hmap, hnew⟩ h

/-- What holds of three documents holds one key down. -/
theorem Covered.child (h : Covered a b c) (hb : child? (.key key) b = some v)
    (hc : child? (.key key) c = some w) : Covered (slot (.key key) a) v w := by
  intro keys old x new hold hx hmap hnew
  refine h (key :: keys) old x new (get?_cons_of_slot hold rfl) ?_ hmap ?_
  · rw [under_cons, hb, Option.bind_some, hx]
  · rw [under_cons, hc, Option.bind_some, hnew]

/-- One key of three mappings that are merged, when merging is associative below that key. -/
theorem child?_merge_assoc (hb : b.Ordered) (hc : c.Ordered) (hb_map : b.isMapping = true)
    (hc_map : c.isMapping = true)
    (hbelow : ∀ v w, child? (.key key) b = some v → child? (.key key) c = some w →
      ((slot (.key key) a).merge v).merge w = (slot (.key key) a).merge (v.merge w)) :
    child? (.key key) ((a.merge b).merge c) = child? (.key key) (a.merge (b.merge c)) := by
  have hbc : (b.merge c).Ordered := hc.merge hb
  have hbc_map : (b.merge c).isMapping = true := by rw [isMapping_merge, hc_map]
  cases hcw : child? (.key key) c with
  | none =>
    have hkept : child? (.key key) (b.merge c) = child? (.key key) b :=
      child?_merge_of_none hc_map hcw b
    rw [child?_merge_of_none hc_map hcw]
    cases hbv : child? (.key key) b with
    | none => rw [child?_merge_of_none hb_map hbv, child?_merge_of_none hbc_map (hkept.trans hbv)]
    | some v => rw [child?_merge_of_some hb hbv, child?_merge_of_some hbc (hkept.trans hbv)]
  | some w =>
    have hlast := child?_merge_of_some hc hcw b
    rw [child?_merge_of_some hc hcw, child?_merge_of_some hbc hlast]
    cases hbv : child? (.key key) b with
    | none =>
      have hslot : slot (.key key) (a.merge b) = slot (.key key) a := by
        rw [slot, child?_merge_of_none hb_map hbv, ← slot]
      have hnull : null.merge w = w := merge_into_of_isMapping_false rfl w
      rw [hslot, slot_of_child?_none hbv, hnull]
    | some v =>
      rw [slot_of_child? (child?_merge_of_some hb hbv a), slot_of_child? hbv, hbelow v w hbv hcw]

theorem merge_assoc_of_covered (ha : a.Ordered) (hb : b.Ordered) (hc : c.Ordered)
    (h : Covered a b c) : (a.merge b).merge c = a.merge (b.merge c) := by
  induction hc generalizing a b with
  | scalar hscalar =>
    have hmap := (Bool.or_eq_false_iff.1 hscalar).1
    rw [merge_of_isMapping_false hmap, merge_of_isMapping_false hmap, merge_of_isMapping_false hmap]
  | sequence _ _ => rfl
  | @mapping new ordered values_ordered ih =>
    have hc : Ordered (.mapping new) := .mapping ordered values_ordered
    by_cases hb_map : b.isMapping = true
    · by_cases ha_map : a.isMapping = true
      · refine (hc.merge (hb.merge ha)).eq_of_child? ((hc.merge hb).merge ha) ?_ ?_ fun key => ?_
        · rw [isMapping_merge]
          rfl
        · rw [isMapping_merge, isMapping_merge]
          rfl
        · refine child?_merge_assoc hb hc hb_map rfl fun v w hv hw => ?_
          exact ih (key, w) (Fields.mem_of_get? hw) (ha.slot (.key key)) (hb.child? hv)
            (h.child hv hw)
      · rw [Bool.not_eq_true] at ha_map
        rw [merge_into_of_isMapping_false ha_map, merge_into_of_isMapping_false ha_map]
    · -- what `b` left of `a` is `b` itself, and `c` replaces that
      rw [Bool.not_eq_true] at hb_map
      rw [merge_of_isMapping_false hb_map, merge_into_of_isMapping_false hb_map]
      by_cases ha_map : a.isMapping = true
      · obtain ⟨old, rfl⟩ := exists_fields_of_isMapping ha_map
        rw [merge_mapping_mapping, h [] old b new rfl rfl hb_map rfl]
      · rw [Bool.not_eq_true] at ha_map
        rw [merge_into_of_isMapping_false ha_map]

/-- An interruption is seen on one side only. -/
theorem Covered.of_merge_assoc (hb : b.Ordered) (hc : c.Ordered)
    (h : (a.merge b).merge c = a.merge (b.merge c)) : Covered a b c := by
  intro keys old x new hold hx hmap hnew
  have hleft : under keys ((a.merge b).merge c) = some (.mapping new) := by
    rw [under_merge_of_some hc hnew, under_merge_of_some hb hx, Option.getD_some,
      merge_of_isMapping_false hmap, merge_into_of_isMapping_false hmap]
  have hright : under keys (a.merge (b.merge c)) = some (.mapping (Fields.merge old new)) := by
    have hlast : under keys (b.merge c) = some (.mapping new) := by
      rw [under_merge_of_some hc hnew, hx, Option.getD_some, merge_into_of_isMapping_false hmap]
    rw [under_merge_of_some (hc.merge hb) hlast, hold, Option.getD_some, merge_mapping_mapping]
  rw [h, hright, Option.some.injEq, mapping.injEq] at hleft
  exact hleft

theorem merge_assoc_iff (ha : a.Ordered) (hb : b.Ordered) (hc : c.Ordered) :
    (a.merge b).merge c = a.merge (b.merge c) ↔ Covered a b c :=
  ⟨Covered.of_merge_assoc hb hc, merge_assoc_of_covered ha hb hc⟩

/-! ### What stays a mapping -/

/-- What comes in is a mapping after the merge where it was one before. -/
theorem mappedIn_merge (hv : v.Ordered) (existing : Value) : MappedIn v (existing.merge v) := by
  intro keys old hold
  have hmap := isMapping_merge ((under keys existing).getD .null) (.mapping old)
  obtain ⟨new, hnew⟩ := exists_fields_of_isMapping (hmap.trans rfl)
  exact ⟨new, by rw [under_merge_of_some hv hold, hnew]⟩

/-- Merging the same thing into two documents keeps their mappings comparable. -/
theorem MappedIn.merge (h : MappedIn v w) (hx : x.Ordered) :
    MappedIn (v.merge x) (w.merge x) := by
  intro keys old hold
  cases hget : under keys x with
  | some y =>
    rw [under_merge_of_some hx hget, Option.some.injEq] at hold
    have hmap : y.isMapping = true := by
      rw [← isMapping_merge ((under keys v).getD .null), hold]
      rfl
    obtain ⟨new, rfl⟩ := exists_fields_of_isMapping hmap
    exact mappedIn_merge hx w keys new hget
  | none =>
    obtain ⟨new, hnew⟩ := h keys old (under_of_merge hx hget hold)
    refine ⟨new, ?_⟩
    rw [under_merge_of_none hx hget ?_, hnew]
    intro above y hpre hne hy
    cases hmap : y.isMapping with
    | true => rfl
    | false =>
      rw [under_merge_below hx hpre hne hy hmap] at hold
      cases hold

/-- An interruption lies under a key that all three mappings have. -/
theorem Interrupted.exists_key {first second third : Fields Value}
    (h : Interrupted (.mapping first) (.mapping second) (.mapping third)) :
    ∃ key, key ∈ Fields.keys first ∧ key ∈ Fields.keys second ∧ key ∈ Fields.keys third := by
  obtain ⟨keys, old, x, new, hold, hx, hmap, hnew⟩ := h
  cases keys with
  | nil =>
    cases hx
    cases hmap
  | cons key rest =>
    have hkey {fields : Fields Value} {y : Value}
        (hy : under (key :: rest) (.mapping fields) = some y) : key ∈ Fields.keys fields := by
      rw [under_cons, Option.bind_eq_some_iff] at hy
      obtain ⟨child, hchild, -⟩ := hy
      exact Fields.mem_keys.2 ⟨child, hchild⟩
    exact ⟨key, hkey hold, hkey hx, hkey hnew⟩

theorem Interrupted.mono (h : Interrupted v b c) (hmapped : MappedIn v w) :
    Interrupted w b c := by
  obtain ⟨keys, old, x, new, hold, hx, hmap, hnew⟩ := h
  obtain ⟨more, hmore⟩ := hmapped keys old hold
  exact ⟨keys, more, x, new, hmore, hx, hmap, hnew⟩

end Value

namespace Status

variable {status first : Status} {rest : List Status}

/-- Updates laid over a status one after the other. -/
def mergeAll (status : Status) (updates : List Status) : Status := updates.foldl merge status

/-- None of some updates, which are laid over a status one after the other, comes in between a
mapping that is there by then and a mapping that a later one brings. -/
def Uninterrupted (status : Status) (updates : List Status) : Prop :=
  ∀ before update after, updates = before ++ update :: after →
    ¬Value.Interrupted (status.mergeAll before).toValue update.toValue
      (empty.mergeAll after).toValue

theorem toValue_merge (status update : Status) :
    (status.merge update).toValue = status.toValue.merge update.toValue :=
  (Value.merge_mapping_mapping status.fields update.fields).symm

theorem eq_of_toValue {other : Status} (h : status.toValue = other.toValue) : status = other :=
  congrArg Status.mk (Value.mapping.inj h)

theorem empty_merge (ordered : status.toValue.Ordered) : empty.merge status = status :=
  congrArg Status.mk (Value.empty_merge ordered)

theorem merge_assoc {last : Status} (hstatus : status.toValue.Ordered)
    (hfirst : first.toValue.Ordered) (hlast : last.toValue.Ordered)
    (h : ¬Value.Interrupted status.toValue first.toValue last.toValue) :
    (status.merge first).merge last = status.merge (first.merge last) := by
  refine eq_of_toValue ?_
  simp only [toValue_merge]
  exact Value.merge_assoc_of_covered hstatus hfirst hlast (Value.covered_of_not_interrupted h)

theorem ordered_merge (hstatus : status.toValue.Ordered) (hfirst : first.toValue.Ordered) :
    (status.merge first).toValue.Ordered := by
  rw [toValue_merge]
  exact hfirst.merge hstatus

theorem ordered_mergeAll (hstatus : status.toValue.Ordered)
    (hrest : ∀ update ∈ rest, update.toValue.Ordered) : (status.mergeAll rest).toValue.Ordered := by
  induction rest generalizing status with
  | nil => exact hstatus
  | cons update more ih =>
    obtain ⟨hupdate, hmore⟩ := List.forall_mem_cons.1 hrest
    exact ih (ordered_merge hstatus hupdate) hmore

theorem mappedIn_mergeAll {other : Status} (h : status.toValue.MappedIn other.toValue)
    (hrest : ∀ update ∈ rest, update.toValue.Ordered) :
    (status.mergeAll rest).toValue.MappedIn (other.mergeAll rest).toValue := by
  induction rest generalizing status other with
  | nil => exact h
  | cons update more ih =>
    obtain ⟨hupdate, hmore⟩ := List.forall_mem_cons.1 hrest
    refine ih ?_ hmore
    rw [toValue_merge, toValue_merge]
    exact h.merge hupdate

/-- The first of the updates laid over the status leaves the others uninterrupted. -/
theorem Uninterrupted.tail (h : status.Uninterrupted (first :: rest)) :
    (status.merge first).Uninterrupted rest :=
  fun before update after e => h (first :: before) update after (congrArg (first :: ·) e)

/-- So it does by itself, as it has no more mappings than it has on top of the status. -/
theorem Uninterrupted.tail_alone (hfirst : first.toValue.Ordered)
    (hrest : ∀ update ∈ rest, update.toValue.Ordered) (h : status.Uninterrupted (first :: rest)) :
    first.Uninterrupted rest := by
  intro before update after e hinterrupted
  refine h.tail before update after e (hinterrupted.mono (mappedIn_mergeAll ?_ ?_))
  · rw [toValue_merge]
    exact Value.mappedIn_merge hfirst status.toValue
  · exact fun other mem => hrest other (e ▸ List.mem_append_left _ mem)

/-- Updates laid over a status one by one come to what they come to together. -/
theorem mergeAll_merge (hstatus : status.toValue.Ordered) (hfirst : first.toValue.Ordered)
    (hrest : ∀ update ∈ rest, update.toValue.Ordered) (h : status.Uninterrupted (first :: rest)) :
    (status.merge first).mergeAll rest = status.merge (first.mergeAll rest) := by
  induction rest generalizing status first with
  | nil => rfl
  | cons update more ih =>
    obtain ⟨hupdate, hmore⟩ := List.forall_mem_cons.1 hrest
    have hlater : (empty.mergeAll (update :: more)) = update.mergeAll more := by
      rw [mergeAll, List.foldl_cons, empty_merge hupdate, ← mergeAll]
    have hthree : ¬Value.Interrupted status.toValue first.toValue (update.mergeAll more).toValue :=
      hlater ▸ h [] first (update :: more) rfl
    calc ((status.merge first).merge update).mergeAll more
        = (status.merge first).merge (update.mergeAll more) :=
          ih (ordered_merge hstatus hfirst) hupdate hmore h.tail
      _ = status.merge (first.merge (update.mergeAll more)) :=
          merge_assoc hstatus hfirst (ordered_mergeAll hupdate hmore) hthree
      _ = status.merge ((first.merge update).mergeAll more) := by
          rw [ih hfirst hupdate hmore (h.tail_alone hfirst hrest)]

end Status

namespace Pipeline

variable {resource : Resource}

/-- The resource after statuses were published on it one after the other, each on top of what the
one before had left. -/
def mergedAll (resource : Resource) (updates : List Status) : Resource :=
  updates.foldl merged resource

/-- An object that is no mapping has no place for a status. -/
theorem merged_of_isMapping_false (h : resource.object.isMapping = false) (incoming : Status) :
    merged resource incoming = resource := by
  rw [merged, Resource.setStatus]
  cases hobject : resource.object with
  | mapping fields =>
    rw [hobject] at h
    cases h
  | _ => rfl

theorem mergedAll_of_isMapping_false (h : resource.object.isMapping = false)
    (updates : List Status) : mergedAll resource updates = resource := by
  induction updates with
  | nil => rfl
  | cons update rest ih =>
    rw [mergedAll, List.foldl_cons, merged_of_isMapping_false h, ← mergedAll, ih]

theorem merged_setStatus (h : resource.object.isMapping = true) (status incoming : Status) :
    merged (resource.setStatus status) incoming = resource.setStatus (status.merge incoming) := by
  rw [merged, Resource.status_setStatus h, Resource.setStatus_setStatus]

theorem mergedAll_setStatus (h : resource.object.isMapping = true) (status : Status)
    (updates : List Status) : mergedAll (resource.setStatus status) updates =
      resource.setStatus (status.mergeAll updates) := by
  induction updates generalizing status with
  | nil => rfl
  | cons update rest ih =>
    rw [mergedAll, List.foldl_cons, merged_setStatus h, ← mergedAll, ih]
    rfl

theorem ordered_status (h : resource.object.Ordered) : resource.status.toValue.Ordered := by
  rw [Resource.status_eq, Resource.currentStatus]
  cases hchild : resource.object.child? (.key statusKey) with
  | none => exact Value.ordered_empty
  | some v => cases v with
    | mapping fields => exact h.child? hchild
    | _ => exact Value.ordered_empty

/-- Publishing statuses one by one leaves the resource as publishing them together does. -/
theorem mergedAll_cons (ordered : resource.object.Ordered) {first : Status} {rest : List Status}
    (hupdates : ∀ update ∈ first :: rest, update.toValue.Ordered)
    (h : resource.status.Uninterrupted (first :: rest)) :
    mergedAll resource (first :: rest) = merged resource (first.mergeAll rest) := by
  cases hobject : resource.object.isMapping with
  | true =>
    obtain ⟨hfirst, hrest⟩ := List.forall_mem_cons.1 hupdates
    have htogether := Status.mergeAll_merge (ordered_status ordered) hfirst hrest h
    have hsteps := mergedAll_setStatus hobject (resource.status.merge first) rest
    rw [htogether] at hsteps
    exact hsteps
  | false => rw [mergedAll_of_isMapping_false hobject, merged_of_isMapping_false hobject]

end Pipeline

open Value

/-- Merging has a unit, is idempotent, and takes in nothing twice. It is associative unless the
second of three mappings has, under some keys, what is no mapping where the other two have
mappings; and even then if the last of these has everything that the first has. So publishing
updates of a status one by one leaves the object, and hands it to the updater, as publishing them
merged together does, unless one of them interrupts two mappings like that. -/
theorem merge_laws :
    (∀ a : Fields Value, Ordered (.mapping a) →
      Fields.merge a [] = a ∧ Fields.merge [] a = a ∧ Fields.merge a a = a) ∧
    (∀ a b : Fields Value, Ordered (.mapping b) →
      Fields.merge (Fields.merge a b) b = Fields.merge a b) ∧
    (∀ a b c : Fields Value, Ordered (.mapping a) → Ordered (.mapping b) → Ordered (.mapping c) →
      (¬Interrupted (.mapping a) (.mapping b) (.mapping c) →
        Fields.merge (Fields.merge a b) c = Fields.merge a (Fields.merge b c)) ∧
      (Fields.merge (Fields.merge a b) c = Fields.merge a (Fields.merge b c) ↔
        Covered (.mapping a) (.mapping b) (.mapping c))) ∧
    (∀ (resource : Resource) (first : Status) (rest : List Status),
      resource.object.Ordered →
      (∀ update ∈ first :: rest, update.toValue.Ordered) →
      resource.status.Uninterrupted (first :: rest) →
      Pipeline.mergedAll resource (first :: rest) =
        Pipeline.merged resource (first.mergeAll rest) ∧
      ∀ {m : Type → Type} [Monad m] (pipeline : Pipeline) (update : Updater m),
        pipeline.publish (some update) resource (first.mergeAll rest) =
          update (resource.ref (some pipeline.workflow.crdPlural))
            (Pipeline.mergedAll resource (first :: rest)).object) := by
  refine ⟨fun a ha => ⟨Fields.merge_nil a, empty_merge ha, ?_⟩, fun a b hb => ?_,
    fun a b c ha hb hc => ?_, fun resource first rest ordered hupdates h => ?_⟩
  · have hself := merge_self ha
    rwa [merge_mapping_mapping, mapping.injEq] at hself
  · have hagain := merge_merge_self hb (.mapping a)
    rwa [merge_mapping_mapping, merge_mapping_mapping, mapping.injEq] at hagain
  · have hiff := merge_assoc_iff ha hb hc
    simp only [merge_mapping_mapping, mapping.injEq] at hiff
    exact ⟨fun h => hiff.2 (covered_of_not_interrupted h), hiff⟩
  · have hmerged := Pipeline.mergedAll_cons ordered hupdates h
    refine ⟨hmerged, fun pipeline update => ?_⟩
    rw [Pipeline.publish_some, hmerged]

/-- A mapping that a text replaces, and another one brought in elsewhere: published one by one or
together. A mapping brought in where the text is would bring the replaced one back. -/
theorem merge_laws_replaced :
    let object : Value := .mapping [("status", .mapping [("k", .mapping [("x", .int 1)])])]
    let resource : Resource := ⟨object, .ofObject object⟩
    let first : Status := ⟨[("k", .text "gone")]⟩
    let elsewhere : Status := ⟨[("l", .mapping [("y", .int 2)])]⟩
    let a : Fields Value := [("k", .mapping [("x", .int 1)])]
    let b : Fields Value := [("k", .text "gone")]
    let c : Fields Value := [("k", .mapping [("y", .int 2)])]
    (resource.object.Ordered ∧ (∀ update ∈ [first, elsewhere], update.toValue.Ordered) ∧
      resource.status.Uninterrupted [first, elsewhere]) ∧
    Pipeline.mergedAll resource [first, elsewhere] =
      Pipeline.merged resource (first.mergeAll [elsewhere]) ∧
    (Ordered (.mapping a) ∧ Ordered (.mapping b) ∧ Ordered (.mapping c) ∧
      Interrupted (.mapping a) (.mapping b) (.mapping c)) ∧
    Fields.merge (Fields.merge a b) c ≠ Fields.merge a (Fields.merge b c) := by
  intro object resource first elsewhere a b c
  have single {key : String} {v : Value} (h : v.Ordered) : Ordered (.mapping [(key, v)]) := by
    refine .mapping (List.pairwise_singleton _ _) fun entry mem => ?_
    rwa [List.mem_singleton.1 mem]
  have ha : Ordered (.mapping a) := single (single (.scalar rfl))
  have hb : Ordered (.mapping b) := single (.scalar rfl)
  have hc : Ordered (.mapping c) := single (single (.scalar rfl))
  have hobject : resource.object.Ordered := single ha
  have hupdates : ∀ update ∈ [first, elsewhere], update.toValue.Ordered := by
    intro update mem
    rcases List.mem_pair.1 mem with rfl | rfl
    · exact hb
    · exact single (single (.scalar rfl))
  have hfree : resource.status.Uninterrupted [first, elsewhere] := by
    intro before update after e hinterrupted
    obtain ⟨key, -, hsecond, hthird⟩ := hinterrupted.exists_key
    rcases before with _ | ⟨_, _ | ⟨_, before⟩⟩
    · cases e
      rw [List.mem_singleton.1 hsecond] at hthird
      exact absurd hthird (by decide +kernel)
    · cases e
      cases hthird
    · have hlength := congrArg List.length e
      simp at hlength
  have hinterrupted : Interrupted (.mapping a) (.mapping b) (.mapping c) :=
    ⟨["k"], _, _, _, rfl, rfl, rfl, rfl⟩
  refine ⟨⟨hobject, hupdates, hfree⟩, ?_, ⟨ha, hb, hc, hinterrupted⟩, fun hassoc => ?_⟩
  · exact (merge_laws.2.2.2 resource first [elsewhere] hobject hupdates hfree).1
  · have hcovered := ((merge_laws.2.2.1 a b c ha hb hc).2.1 hassoc) ["k"] _ _ _ rfl rfl rfl rfl
    have hlengths := congrArg List.length hcovered
    have htwo : (Fields.merge [("x", .int 1)] [("y", .int 2)]).length = 2 := by cbv
    rw [htwo] at hlengths
    cases hlengths

end DocPath
