import DocPath.Document.Ordered
import DocPath.Proofs.Walk
import DocPath.Resource.Identity

/-!
# What a merge reads as

At one key a merge has what the incoming side has there, merged into what the existing side has, and
what only the existing side has stays. Along keys that is so at every depth: as long as the incoming
side has a node, the merge has that node merged into the existing one. The incoming side has to have
each key once; of two entries with one key a merge would take both.
-/

namespace DocPath

open Identity (under)

namespace Value

/-! ### One value into another -/

theorem merge_mapping_mapping (existing incoming : Fields Value) :
    merge (.mapping existing) (.mapping incoming) = .mapping (Fields.merge existing incoming) := by
  rw [merge, Value.overlay, Fields.merge]

theorem merge_of_isMapping_false {incoming : Value} (h : incoming.isMapping = false)
    (existing : Value) : merge existing incoming = incoming := by
  cases incoming with
  | mapping fields => cases h
  | _ => rfl

theorem merge_into_of_isMapping_false {existing : Value} (h : existing.isMapping = false)
    (incoming : Value) : merge existing incoming = incoming := by
  cases incoming with
  | mapping fields => cases existing with
    | mapping _ => cases h
    | _ => rw [merge, Value.overlay]; simp
  | _ => rfl

/-- A merge is a mapping just if what comes in is one. -/
theorem isMapping_merge (existing incoming : Value) :
    (existing.merge incoming).isMapping = incoming.isMapping := by
  cases existing with
  | mapping old => cases incoming with
    | mapping new => rw [merge_mapping_mapping]; rfl
    | _ => rfl
  | _ => rw [merge_into_of_isMapping_false rfl]

theorem exists_fields_of_isMapping {v : Value} (h : v.isMapping = true) :
    ∃ fields, v = .mapping fields := by
  cases v with
  | mapping fields => exact ⟨fields, rfl⟩
  | _ => cases h

end Value

namespace Fields

/-! ### One key -/

variable {key : String} {existing incoming : Fields Value}

theorem merge_nil (existing : Fields Value) : merge existing [] = existing := by
  rw [merge, Fields.overlay]

theorem merge_cons (entry : String × Value) (rest existing : Fields Value) :
    merge existing (entry :: rest) = merge
      (insert entry.1 (((get? entry.1 existing).getD .null).merge entry.2) existing) rest := by
  rw [merge, Fields.overlay]
  rfl

/-- A key that only the existing side can have. -/
theorem get?_merge_of_none (h : get? key incoming = none) (existing : Fields Value) :
    get? key (merge existing incoming) = get? key existing := by
  induction incoming generalizing existing with
  | nil => rw [merge_nil]
  | cons entry rest ih =>
    rw [get?_cons] at h
    split at h
    · cases h
    · rename_i hk
      rw [merge_cons, ih h, get?_insert_of_ne hk]

/-- A key of the incoming side. -/
theorem get?_merge_of_some (ordered : Ordered incoming) {v : Value}
    (h : get? key incoming = some v) (existing : Fields Value) :
    get? key (merge existing incoming) =
      some (((get? key existing).getD .null).merge v) := by
  induction incoming generalizing existing with
  | nil => cases h
  | cons entry rest ih =>
    rw [get?_cons] at h
    split at h
    · rename_i hk
      cases h
      have once : get? key rest = none := by
        rw [hk]
        exact ordered.get?_rest
      rw [merge_cons, get?_merge_of_none once, hk, get?_insert_self]
    · rename_i hk
      rw [merge_cons, ih (List.pairwise_cons.1 ordered).2 h, get?_insert_of_ne hk]

/-- Entries that each merge into what is in order, laid over a mapping in order. -/
theorem ordered_merge
    (hincoming : ∀ entry ∈ incoming, ∀ v : Value, v.Ordered → (v.merge entry.2).Ordered)
    (hexisting : Value.Ordered (.mapping existing)) :
    Value.Ordered (.mapping (merge existing incoming)) := by
  induction incoming generalizing existing with
  | nil => rwa [merge_nil]
  | cons entry rest ih =>
    have hslot : ((get? entry.1 existing).getD .null).Ordered := by
      cases hget : get? entry.1 existing with
      | none => exact .scalar rfl
      | some old => exact hexisting.of_get? hget
    have hvalue := hincoming entry List.mem_cons_self _ hslot
    rw [merge_cons]
    exact ih (fun other mem => hincoming other (List.mem_cons_of_mem _ mem))
      (hexisting.insert entry.1 hvalue)

/-- Entries that each change nothing where they come in change nothing together. -/
theorem merge_of_absorbed (h : ∀ entry ∈ incoming, ∃ v,
    get? entry.1 existing = some v ∧ v.merge entry.2 = v) : merge existing incoming = existing := by
  induction incoming with
  | nil => rw [merge_nil]
  | cons entry rest ih =>
    obtain ⟨v, hv, hsame⟩ := h entry List.mem_cons_self
    have hinsert : insert entry.1 v existing = existing := insert_of_get? hv
    rw [merge_cons, hv, Option.getD_some, hsame, hinsert]
    exact ih fun other mem => h other (List.mem_cons_of_mem _ mem)

end Fields

namespace Value

variable {existing incoming v x : Value} {name : String}

theorem child?_key_of_isMapping_false (h : v.isMapping = false) (name : String) :
    child? (.key name) v = none := by
  cases v with
  | mapping fields => cases h
  | _ => rfl

/-- A merge of two documents in order is in order. -/
theorem Ordered.merge (hincoming : incoming.Ordered) (hexisting : existing.Ordered) :
    (existing.merge incoming).Ordered := by
  induction hincoming generalizing existing with
  | scalar h =>
    have hmap := (Bool.or_eq_false_iff.1 h).1
    rw [merge_of_isMapping_false hmap]
    exact .scalar h
  | sequence items_ordered _ => exact .sequence items_ordered
  | @mapping fields ordered values_ordered ih =>
    by_cases hmap : existing.isMapping = true
    · obtain ⟨old, rfl⟩ := exists_fields_of_isMapping hmap
      rw [merge_mapping_mapping]
      exact Fields.ordered_merge (fun entry mem v hv => ih entry mem hv) hexisting
    · rw [merge_into_of_isMapping_false (by simpa using hmap)]
      exact .mapping ordered values_ordered

/-- What was merged in once changes nothing when it is merged in again. -/
theorem merge_merge_self (ordered : incoming.Ordered) (existing : Value) :
    (existing.merge incoming).merge incoming = existing.merge incoming := by
  induction ordered generalizing existing with
  | scalar h =>
    have hmap := (Bool.or_eq_false_iff.1 h).1
    rw [merge_of_isMapping_false hmap, merge_of_isMapping_false hmap]
  | sequence items_ordered _ => rfl
  | @mapping fields ordered values_ordered ih =>
    by_cases hmap : existing.isMapping = true
    · obtain ⟨old, rfl⟩ := exists_fields_of_isMapping hmap
      have habsorbed : Fields.merge (Fields.merge old fields) fields = Fields.merge old fields := by
        refine Fields.merge_of_absorbed fun entry mem => ?_
        exact ⟨_, Fields.get?_merge_of_some ordered (ordered.get?_of_mem mem) old, ih entry mem _⟩
      rw [merge_mapping_mapping, merge_mapping_mapping, habsorbed]
    · -- the incoming mapping is there as it came, so it meets itself
      have habsorbed : Fields.merge fields fields = fields := by
        refine Fields.merge_of_absorbed fun entry mem => ?_
        have hnull : null.merge entry.2 = entry.2 := merge_into_of_isMapping_false rfl _
        have hself := ih entry mem .null
        rw [hnull] at hself
        exact ⟨_, ordered.get?_of_mem mem, hself⟩
      have hinto := merge_into_of_isMapping_false (Bool.eq_false_iff.2 hmap)
      rw [hinto, merge_mapping_mapping, habsorbed]

/-- A key of the incoming side, whatever the existing side is. -/
theorem child?_merge_of_some (ordered : incoming.Ordered)
    (h : child? (.key name) incoming = some v) (existing : Value) :
    child? (.key name) (existing.merge incoming) = some ((slot (.key name) existing).merge v) := by
  obtain ⟨fields, rfl, hv⟩ := child?_key_eq_some.1 h
  by_cases hmap : existing.isMapping = true
  · obtain ⟨old, rfl⟩ := exists_fields_of_isMapping hmap
    rw [merge_mapping_mapping]
    exact Fields.get?_merge_of_some ordered.fields hv old
  · rw [Bool.not_eq_true] at hmap
    rw [merge_into_of_isMapping_false hmap, h,
      slot_of_child?_none (child?_key_of_isMapping_false hmap name),
      merge_into_of_isMapping_false rfl]

/-- A key that an incoming mapping does not have. -/
theorem child?_merge_of_none (hmap : incoming.isMapping = true)
    (h : child? (.key name) incoming = none) (existing : Value) :
    child? (.key name) (existing.merge incoming) = child? (.key name) existing := by
  obtain ⟨fields, rfl⟩ := exists_fields_of_isMapping hmap
  by_cases hold : existing.isMapping = true
  · obtain ⟨old, rfl⟩ := exists_fields_of_isMapping hold
    rw [merge_mapping_mapping]
    exact Fields.get?_merge_of_none h old
  · rw [Bool.not_eq_true] at hold
    rw [merge_into_of_isMapping_false hold, h, child?_key_of_isMapping_false hold]

/-! ### Along keys -/

theorem under_cons (key : String) (rest : List String) (v : Value) :
    under (key :: rest) v = (child? (.key key) v).bind (under rest) :=
  get?_cons _ _ v

theorem under_append (above below : List String) (v : Value) :
    under (above ++ below) v = (under above v).bind (under below) := by
  rw [under, List.map_append, get?_append]
  rfl

/-- Below a slot there is what is below the node, with null for what is not there. -/
theorem getD_under_slot (key : String) (rest : List String) (v : Value) :
    (under rest (slot (.key key) v)).getD .null = (under (key :: rest) v).getD .null := by
  rw [under_cons]
  cases hc : child? (.key key) v with
  | some child => rw [slot_of_child? hc, Option.bind_some]
  | none =>
    rw [slot_of_child?_none hc, under, get?_null]
    split <;> rfl

/-- Where the incoming side has a node, the merge has it merged into the existing one. -/
theorem under_merge_of_some {keys : List String} (ordered : incoming.Ordered)
    (h : under keys incoming = some x) (existing : Value) :
    under keys (existing.merge incoming) =
      some (((under keys existing).getD .null).merge x) := by
  induction keys generalizing existing incoming with
  | nil =>
    cases h
    rfl
  | cons key rest ih =>
    rw [under_cons, Option.bind_eq_some_iff] at h
    obtain ⟨child, hchild, hx⟩ := h
    obtain ⟨fields, rfl, hget⟩ := child?_key_eq_some.1 hchild
    rw [under_cons, child?_merge_of_some ordered hchild, Option.bind_some,
      ih (ordered.of_get? hget) hx, getD_under_slot]

/-- Where it has none, and no other node in the way, the existing side stays as it is. -/
theorem under_merge_of_none {keys : List String} (ordered : incoming.Ordered)
    (h : under keys incoming = none)
    (hfree : ∀ above x, above <+: keys → above ≠ keys → under above incoming = some x →
      x.isMapping = true) (existing : Value) :
    under keys (existing.merge incoming) = under keys existing := by
  induction keys generalizing existing incoming with
  | nil => cases h
  | cons key rest ih =>
    have hmap : incoming.isMapping = true :=
      hfree [] incoming List.nil_prefix (List.cons_ne_nil _ _).symm rfl
    cases hchild : child? (.key key) incoming with
    | none => rw [under_cons, under_cons, child?_merge_of_none hmap hchild]
    | some child =>
      obtain ⟨fields, rfl, hget⟩ := child?_key_eq_some.1 hchild
      rw [under_cons, hchild, Option.bind_some] at h
      have hne : rest.map Step.key ≠ [] := by
        intro e
        obtain rfl := List.map_eq_nil_iff.1 e
        cases h
      have hbelow : ∀ above x, above <+: rest → above ≠ rest → under above child = some x →
          x.isMapping = true := by
        intro above x hpre habove hx
        refine hfree (key :: above) x (List.cons_prefix_cons.2 ⟨rfl, hpre⟩) ?_ ?_
        · simpa using habove
        · rw [under_cons, hchild, Option.bind_some, hx]
      rw [under_cons, child?_merge_of_some ordered hchild, Option.bind_some,
        ih (ordered.of_get? hget) h hbelow]
      exact (get?_cons_slot (.key key) hne existing).symm

/-- Nothing lies under keys in what is no mapping. -/
theorem under_of_isMapping_false {keys : List String} (hne : keys ≠ [])
    (h : v.isMapping = false) : under keys v = none := by
  obtain ⟨key, rest, rfl⟩ := List.exists_cons_of_ne_nil hne
  rw [under_cons, child?_key_of_isMapping_false h, Option.bind_none]

/-- Below a node that replaces another one, there is nothing. -/
theorem under_merge_below {keys above : List String} (ordered : incoming.Ordered)
    (hpre : above <+: keys) (hne : above ≠ keys) (hx : under above incoming = some x)
    (hmap : x.isMapping = false) (existing : Value) :
    under keys (existing.merge incoming) = none := by
  obtain ⟨rest, rfl⟩ := hpre
  have hrest : rest ≠ [] := by
    rintro rfl
    exact hne (List.append_nil _).symm
  rw [under_append, under_merge_of_some ordered hx, Option.bind_some,
    merge_of_isMapping_false hmap, under_of_isMapping_false hrest hmap]

/-- What is read where the incoming side has nothing is that of the existing side. -/
theorem under_of_merge {keys : List String} {y : Value} (ordered : incoming.Ordered)
    (h : under keys incoming = none)
    (hy : under keys (existing.merge incoming) = some y) : under keys existing = some y := by
  rw [← under_merge_of_none ordered h ?_ existing, hy]
  intro above x hpre hne hx
  cases hmap : x.isMapping with
  | true => rfl
  | false =>
    rw [under_merge_below ordered hpre hne hx hmap] at hy
    cases hy

end Value

namespace Fields

open Value

/-- What a merge `m` of the mapping `s` into the mapping `d` reads as along keys. -/
structure MergedAlong (d s m : Fields Value) : Prop where
  /-- Below a node of `s` that is no mapping there is nothing. -/
  below : ∀ keys above x, above <+: keys → above ≠ keys →
    under above (.mapping s) = some x → x.isMapping = false →
      under keys (.mapping m) = none
  /-- Such a node replaces whatever `d` has. -/
  replaced : ∀ keys x, under keys (.mapping s) = some x → x.isMapping = false →
    under keys (.mapping m) = some x
  /-- Two mappings are merged in turn. -/
  merged : ∀ keys old new, under keys (.mapping s) = some (.mapping new) →
    under keys (.mapping d) = some (.mapping old) →
      under keys (.mapping m) = some (.mapping (merge old new))
  /-- A mapping of `s` where `d` has none is taken as it is. -/
  added : ∀ keys new, under keys (.mapping s) = some (.mapping new) →
    (∀ old, under keys (.mapping d) ≠ some (.mapping old)) →
      under keys (.mapping m) = some (.mapping new)
  /-- What `s` says nothing about is left alone. -/
  kept : ∀ keys, under keys (.mapping s) = none →
    (∀ above x, above <+: keys → above ≠ keys → under above (.mapping s) = some x →
      x.isMapping = true) →
      under keys (.mapping m) = under keys (.mapping d)
  /-- At the top, the keys are those of both sides. -/
  keys : ∀ key, key ∈ Fields.keys m ↔ key ∈ Fields.keys d ∨ key ∈ Fields.keys s
  /-- Every field of `s` is there. -/
  present : ∀ keys x, under keys (.mapping s) = some x →
    ∃ y, under keys (.mapping m) = some y
  /-- Every field comes from one side or the other. -/
  nothing_new : ∀ keys y, under keys (.mapping m) = some y →
    (∃ x, under keys (.mapping s) = some x) ∨ under keys (.mapping d) = some y
  /-- Every field that is no mapping is that of one side or the other. -/
  nothing_made : ∀ keys y, under keys (.mapping m) = some y → y.isMapping = false →
    under keys (.mapping s) = some y ∨ under keys (.mapping d) = some y

theorem mem_keys_merge {d s : Fields Value} (ordered : Ordered s) (key : String) :
    key ∈ keys (merge d s) ↔ key ∈ keys d ∨ key ∈ keys s := by
  rw [mem_keys, mem_keys, mem_keys]
  cases hs : get? key s with
  | none => simp [get?_merge_of_none hs]
  | some v => simp [get?_merge_of_some ordered hs]

/-- A merge into a mapping reads, along keys, as the two sides do. -/
theorem mergedAlong_merge {s : Fields Value} (ordered : Value.Ordered (.mapping s))
    (d : Fields Value) : MergedAlong d s (merge d s) := by
  have hm := merge_mapping_mapping d s
  constructor
  case below =>
    intro keys above x hpre hne hx hmap
    rw [← hm]
    exact under_merge_below ordered hpre hne hx hmap _
  case replaced =>
    intro keys x hx hmap
    rw [← hm, under_merge_of_some ordered hx, merge_of_isMapping_false hmap]
  case merged =>
    intro keys old new hnew hold
    rw [← hm, under_merge_of_some ordered hnew, hold, Option.getD_some, merge_mapping_mapping]
  case added =>
    intro keys new hnew hold
    have hmap : ((under keys (.mapping d)).getD .null).isMapping = false := by
      cases hd : under keys (.mapping d) with
      | none => rfl
      | some y => cases y with
        | mapping old => exact absurd hd (hold old)
        | _ => rfl
    rw [← hm, under_merge_of_some ordered hnew, merge_into_of_isMapping_false hmap]
  case kept =>
    intro keys hs hfree
    rw [← hm]
    exact under_merge_of_none ordered hs hfree _
  case keys => exact mem_keys_merge ordered.fields
  case present =>
    intro keys x hx
    rw [← hm]
    exact ⟨_, under_merge_of_some ordered hx _⟩
  case nothing_new =>
    intro keys y hy
    rw [← hm] at hy
    cases hs : under keys (.mapping s) with
    | some x => exact .inl ⟨x, rfl⟩
    | none => exact .inr (under_of_merge ordered hs hy)
  case nothing_made =>
    intro keys y hy hmap
    rw [← hm] at hy
    cases hs : under keys (.mapping s) with
    | none => exact .inr (under_of_merge ordered hs hy)
    | some x =>
      rw [under_merge_of_some ordered hs, Option.some.injEq] at hy
      rw [← hy, isMapping_merge] at hmap
      rw [← hy, merge_of_isMapping_false hmap]
      exact .inl rfl

end Fields

end DocPath
