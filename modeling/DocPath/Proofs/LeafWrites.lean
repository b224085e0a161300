import DocPath.Proofs.DeepMerge
import DocPath.Proofs.EditedOrder
import Mathlib

/-!
# A merge is the writing of its leaves

The leaves of a mapping are the nodes in it that are no mappings, each with the path of keys that
leads to it. Writing them all into a document, in whatever order, comes to the merge, provided that
no mapping in the incoming one is empty: an empty mapping has no leaves, and a merge would still
make one.

Writes that begin with different keys do not meet. So what lies under one key after all the writes
is what those that begin with it have made there (`child?_writeAll`), and the induction is on the
incoming document, one key down at a time.
-/

namespace DocPath

open Identity (under)

namespace Value

/-- Puts values at paths, one after the other, up to the first one that fails. -/
def setEach : List (Path × Value) → Value → Except AccessError Unit × Value
  | [], v => (.ok (), v)
  | (p, x) :: rest, v => match v.setAt p x with
    | (.ok (), left) => setEach rest left
    | (.error error, left) => (.error error, left)

/-- A leaf of a document: a node that is no mapping, at the end of a chain of keys. -/
def IsLeaf (v : Value) (steps : List Step) (x : Value) : Prop :=
  ∃ keys, steps = keys.map Step.key ∧ under keys v = some x ∧ x.isMapping = false

mutual

/-- The leaves under a key. -/
def leavesUnder (key : String) : Value → List (Path × Value)
  | .mapping fields =>
    (leaves fields).map fun leaf => ((Path.single (.key key)).join leaf.1, leaf.2)
  | v => [(Path.single (.key key), v)]

/-- The leaves of a mapping. -/
def leaves : List (String × Value) → List (Path × Value)
  | [] => []
  | (key, v) :: rest => leavesUnder key v ++ leaves rest

end

/-- Writes along steps, one after the other. -/
def writeAll (writes : List (List Step × Value)) (v : Value) : Value :=
  writes.foldl (fun v write => (zoom (fun _ => ((), write.2)) write.1 v).2) v

/-- What is left of a write that begins with a key, from there on. -/
def restUnder? (key : String) : List Step × Value → Option (List Step × Value)
  | (.key name :: rest, x) => if name = key then some (rest, x) else none
  | _ => none

/-- The writes that begin with a key, from there on. -/
def writesUnder (key : String) (writes : List (List Step × Value)) : List (List Step × Value) :=
  writes.filterMap (restUnder? key)

variable {v x child existing incoming : Value} {key : String} {steps rest : List Step}
  {writes : List (List Step × Value)}

/-! ### Leaves -/

theorem isLeaf_of_isMapping_false (h : v.isMapping = false) :
    IsLeaf v steps x ↔ steps = [] ∧ x = v := by
  constructor
  · rintro ⟨keys, rfl, hx, -⟩
    cases keys with
    | nil =>
      cases hx
      exact ⟨rfl, rfl⟩
    | cons key rest =>
      rw [under_of_isMapping_false (List.cons_ne_nil key rest) h] at hx
      cases hx
  · rintro ⟨rfl, rfl⟩
    exact ⟨[], rfl, rfl, h⟩

/-- A leaf of a mapping lies under a key of it. -/
theorem IsLeaf.exists_key {fields : Fields Value} (h : IsLeaf (.mapping fields) steps x) :
    ∃ key rest, steps = .key key :: rest := by
  obtain ⟨keys, rfl, hx, hmap⟩ := h
  cases keys with
  | nil =>
    cases hx
    cases hmap
  | cons key rest => exact ⟨key, rest.map Step.key, rfl⟩

/-- The leaves under a key are those of what the key leads to. -/
theorem isLeaf_key_cons :
    IsLeaf v (.key key :: rest) x ↔ ∃ child, child? (.key key) v = some child ∧
      IsLeaf child rest x := by
  constructor
  · rintro ⟨keys, hkeys, hx, hmap⟩
    obtain ⟨name, names, rfl, hname, rfl⟩ := List.map_eq_cons_iff.1 hkeys.symm
    cases hname
    rw [under_cons, Option.bind_eq_some_iff] at hx
    obtain ⟨child, hchild, hx⟩ := hx
    exact ⟨child, hchild, names, rfl, hx, hmap⟩
  · rintro ⟨child, hchild, keys, rfl, hx, hmap⟩
    exact ⟨key :: keys, rfl, by rw [under_cons, hchild, Option.bind_some, hx], hmap⟩

/-- A document in order without empty mappings has a leaf. -/
theorem exists_isLeaf (ordered : v.Ordered) (full : ∀ keys, under keys v ≠ some (.mapping [])) :
    ∃ steps x, IsLeaf v steps x := by
  induction ordered with
  | @scalar v h => exact ⟨[], v, [], rfl, rfl, (Bool.or_eq_false_iff.1 h).1⟩
  | sequence _ _ => exact ⟨[], _, [], rfl, rfl, rfl⟩
  | @mapping fields ordered _ ih =>
    cases fields with
    | nil => exact absurd rfl (full [])
    | cons entry rest =>
      have hchild : child? (.key entry.1) (.mapping (entry :: rest)) = some entry.2 :=
        ordered.get?_of_mem List.mem_cons_self
      obtain ⟨steps, x, hleaf⟩ := ih entry List.mem_cons_self fun keys hkeys =>
        full (entry.1 :: keys) (by rw [under_cons, hchild, Option.bind_some, hkeys])
      exact ⟨.key entry.1 :: steps, x, isLeaf_key_cons.2 ⟨_, hchild, hleaf⟩⟩

/-- Nothing lies below what is no mapping, so no empty mapping does. -/
theorem under_ne_empty_of_isMapping_false (h : v.isMapping = false) (keys : List String) :
    under keys v ≠ some (.mapping []) := by
  cases keys with
  | nil =>
    rintro ⟨⟩
    cases h
  | cons key rest =>
    rw [under_of_isMapping_false (List.cons_ne_nil key rest) h]
    rintro ⟨⟩

/-- An empty mapping below a mapping is one of its entries or lies below one. -/
theorem under_ne_empty {fields : Fields Value}
    (h : ∀ entry ∈ fields, ∀ keys, under keys entry.2 ≠ some (.mapping [])) {keys : List String}
    (hne : keys ≠ []) : under keys (.mapping fields) ≠ some (.mapping []) := by
  obtain ⟨key, rest, rfl⟩ := List.exists_cons_of_ne_nil hne
  intro hkeys
  rw [under_cons, Option.bind_eq_some_iff] at hkeys
  obtain ⟨child, hc, hrest⟩ := hkeys
  exact h (key, child) (Fields.mem_of_get? hc) rest hrest

theorem leaves_eq_flatMap (fields : Fields Value) :
    leaves fields = fields.flatMap fun entry => leavesUnder entry.1 entry.2 := by
  induction fields with
  | nil => rfl
  | cons entry rest ih => rw [leaves, ih, List.flatMap_cons]

theorem leavesUnder_of_isMapping_false (h : v.isMapping = false) (key : String) :
    leavesUnder key v = [(Path.single (.key key), v)] := by
  cases v with
  | mapping fields => cases h
  | _ => rfl

/-- The leaves of a mapping are those of its entries. -/
theorem isLeaf_mapping {fields : Fields Value} (ordered : Fields.Ordered fields) :
    IsLeaf (.mapping fields) steps x ↔
      ∃ entry ∈ fields, ∃ rest, steps = .key entry.1 :: rest ∧ IsLeaf entry.2 rest x := by
  constructor
  · intro h
    obtain ⟨key, rest, rfl⟩ := h.exists_key
    obtain ⟨child, hchild, hleaf⟩ := isLeaf_key_cons.1 h
    exact ⟨(key, child), Fields.mem_of_get? hchild, rest, rfl, hleaf⟩
  · rintro ⟨entry, mem, rest, rfl, hleaf⟩
    exact isLeaf_key_cons.2 ⟨entry.2, ordered.get?_of_mem mem, hleaf⟩

/-- The leaves under a key begin with it and go on to a leaf. -/
theorem mem_leavesUnder (ordered : v.Ordered) {p : Path} :
    (p, x) ∈ leavesUnder key v ↔ ∃ rest, p.steps = .key key :: rest ∧ IsLeaf v rest x := by
  have hscalar {v : Value} (h : v.isMapping = false) {key : String} {p : Path} :
      (p, x) ∈ leavesUnder key v ↔ ∃ rest, p.steps = .key key :: rest ∧ IsLeaf v rest x := by
    rw [leavesUnder_of_isMapping_false h, List.mem_singleton]
    simp only [isLeaf_of_isMapping_false h, Prod.mk.injEq]
    constructor
    · rintro ⟨rfl, hx⟩
      exact ⟨[], rfl, rfl, hx⟩
    · rintro ⟨rest, hsteps, rfl, hx⟩
      exact ⟨Path.ext hsteps, hx⟩
  induction ordered generalizing key p with
  | scalar h => exact hscalar (Bool.or_eq_false_iff.1 h).1
  | sequence _ _ => exact hscalar rfl
  | @mapping fields ordered _ ih =>
    have hleaves (q : Path) : (q, x) ∈ leaves fields ↔ IsLeaf (.mapping fields) q.steps x := by
      rw [leaves_eq_flatMap, List.mem_flatMap, isLeaf_mapping ordered]
      exact exists_congr fun entry => and_congr_right fun mem => ih entry mem
    rw [leavesUnder, List.mem_map]
    constructor
    · rintro ⟨⟨q, y⟩, mem, h⟩
      cases h
      exact ⟨q.steps, rfl, (hleaves q).1 mem⟩
    · rintro ⟨rest, hrest, hleaf⟩
      have hne : rest ≠ [] := by
        obtain ⟨name, more, rfl⟩ := hleaf.exists_key
        exact List.cons_ne_nil _ _
      exact ⟨(⟨rest, hne⟩, x), (hleaves ⟨rest, hne⟩).2 hleaf,
        Prod.ext (Path.ext hrest.symm) rfl⟩

theorem mem_leaves {fields : Fields Value} (ordered : Ordered (.mapping fields)) {p : Path} :
    (p, x) ∈ leaves fields ↔ IsLeaf (.mapping fields) p.steps x := by
  rw [leaves_eq_flatMap, List.mem_flatMap, isLeaf_mapping ordered.fields]
  exact exists_congr fun entry => and_congr_right fun mem => mem_leavesUnder (ordered.of_mem mem)

/-! ### Writes along keys -/

/-- A write that begins with a key makes a mapping of what it starts from. -/
theorem zoom_key_cons {α : Type} (edit : Value → α × Value) (key : String) (rest : List Step)
    (v : Value) : zoom edit (.key key :: rest) v =
      ((zoom edit rest (slot (.key key) v)).1.mapError Halt.deeper,
        .mapping (Fields.insert key (zoom edit rest (slot (.key key) v)).2 (openFields v))) := by
  have hprepare : prepare (.key key) v = (none, .mapping (openFields v)) := rfl
  rw [zoom_cons_of_prepare edit hprepare]
  rfl

/-- A write along keys gets through. -/
theorem zoom_keys (x : Value) (keys : List String) (v : Value) :
    (zoom (fun _ => ((), x)) (keys.map Step.key) v).1 = .ok () := by
  induction keys generalizing v with
  | nil => rfl
  | cons key rest ih => rw [List.map_cons, zoom_key_cons, ih, mapError_ok]

/-- So writes along keys all get through. -/
theorem setEach_eq {writes : List (Path × Value)}
    (h : ∀ write ∈ writes, ∃ keys : List String, write.1.steps = keys.map Step.key) (v : Value) :
    setEach writes v = (.ok (), writeAll (writes.map fun write => (write.1.steps, write.2)) v) := by
  induction writes generalizing v with
  | nil => rfl
  | cons write rest ih =>
    obtain ⟨p, x⟩ := write
    obtain ⟨keys, hkeys⟩ := h (p, x) List.mem_cons_self
    have hset : v.setAt p x = (.ok (), (zoom (fun _ => ((), x)) p.steps v).2) := by
      rw [setAt, editAt_eq, hkeys, zoom_keys, mapError_ok]
    rw [setEach, hset]
    exact ih (fun other mem => h other (List.mem_cons_of_mem _ mem)) _

theorem restUnder?_eq_some {write : List Step × Value} :
    restUnder? key write = some (rest, x) ↔ write = (.key key :: rest, x) := by
  rw [restUnder?.eq_def]
  split
  · simp [Option.ite_none_right_eq_some, and_assoc]
  · rename_i h
    constructor
    · intro hnone
      cases hnone
    · rintro rfl
      exact absurd rfl (h key rest x)

theorem mem_writesUnder : (rest, x) ∈ writesUnder key writes ↔ (.key key :: rest, x) ∈ writes := by
  rw [writesUnder, List.mem_filterMap]
  simp only [restUnder?_eq_some, exists_eq_right]

theorem child?_zoom_key_self {α : Type} (edit : Value → α × Value) (key : String)
    (rest : List Step) (v : Value) :
    child? (.key key) (zoom edit (.key key :: rest) v).2 =
      some (zoom edit rest (slot (.key key) v)).2 := by
  rw [zoom_key_cons]
  exact Fields.get?_insert_self key _ _

theorem child?_zoom_key_of_ne {α : Type} {name : String} (h : key ≠ name)
    (edit : Value → α × Value) (rest : List Step) (v : Value) :
    child? (.key key) (zoom edit (.key name :: rest) v).2 = child? (.key key) v := by
  rw [zoom_key_cons]
  refine (Fields.get?_insert_of_ne h _ _).trans ?_
  cases v <;> rfl

/-- Under a key, writes leave what those have made there that begin with it. -/
theorem child?_writeAll (h : ∀ write ∈ writes, ∃ name rest, write.1 = .key name :: rest)
    (key : String) (v : Value) :
    child? (.key key) (writeAll writes v) =
      if writesUnder key writes = [] then child? (.key key) v
      else some (writeAll (writesUnder key writes) (slot (.key key) v)) := by
  induction writes generalizing v with
  | nil => rfl
  | cons write more ih =>
    obtain ⟨steps, x⟩ := write
    obtain ⟨name, rest, rfl⟩ := h (steps, x) List.mem_cons_self
    have hmore := ih (fun other mem => h other (List.mem_cons_of_mem _ mem))
      (zoom (fun _ => ((), x)) (.key name :: rest) v).2
    rw [writeAll, List.foldl_cons, ← writeAll, hmore]
    by_cases hk : name = key
    · subst hk
      have hwrites : writesUnder name ((.key name :: rest, x) :: more) =
          (rest, x) :: writesUnder name more := by
        exact List.filterMap_cons_some (restUnder?_eq_some.2 rfl)
      rw [hwrites, if_neg (List.cons_ne_nil _ _), slot_of_child? (child?_zoom_key_self _ _ _ _),
        child?_zoom_key_self]
      split
      · rename_i hnil
        rw [hnil]
        rfl
      · rfl
    · have hwrites : writesUnder key ((.key name :: rest, x) :: more) = writesUnder key more := by
        exact List.filterMap_cons_none (by rw [restUnder?, if_neg hk])
      rw [hwrites, slot, child?_zoom_key_of_ne (Ne.symm hk), ← slot]

/-- Writes that begin with a key leave a mapping. -/
theorem isMapping_writeAll (h : ∀ write ∈ writes, ∃ name rest, write.1 = .key name :: rest)
    (hv : v.isMapping = true ∨ writes ≠ []) : (writeAll writes v).isMapping = true := by
  induction writes generalizing v with
  | nil => exact hv.resolve_right (absurd rfl)
  | cons write more ih =>
    obtain ⟨name, rest, hwrite⟩ := h write List.mem_cons_self
    rw [writeAll, List.foldl_cons, ← writeAll, hwrite, zoom_key_cons]
    exact ih (fun other mem => h other (List.mem_cons_of_mem _ mem)) (.inl rfl)

/-- Writing things in order keeps the order. -/
theorem Ordered.writeAll (h : v.Ordered) (hwrites : ∀ write ∈ writes, write.2.Ordered) :
    (writeAll writes v).Ordered := by
  induction writes generalizing v with
  | nil => exact h
  | cons write more ih =>
    have hwritten : ∀ node : Value, node.Ordered → ((), write.2).2.Ordered :=
      fun _ _ => hwrites write List.mem_cons_self
    have hfirst := h.zoom hwritten write.1
    exact ih hfirst fun other mem => hwrites other (List.mem_cons_of_mem _ mem)

/-- The same thing written in place of a document, once or more often. -/
theorem writeAll_of_root (h : ∀ write ∈ writes, write = ([], x)) (hv : v = x ∨ writes ≠ []) :
    writeAll writes v = x := by
  induction writes generalizing v with
  | nil => exact hv.resolve_right (absurd rfl)
  | cons write more ih =>
    rw [writeAll, List.foldl_cons, ← writeAll, h write List.mem_cons_self]
    exact ih (fun other mem => h other (List.mem_cons_of_mem _ mem)) (.inl rfl)

/-! ### All leaves -/

/-- Mappings in order are the same if each key leads to the same. -/
theorem Ordered.eq_of_child? {v w : Value} (hv : v.Ordered) (hw : w.Ordered)
    (hv_map : v.isMapping = true) (hw_map : w.isMapping = true)
    (same : ∀ key, Value.child? (.key key) v = Value.child? (.key key) w) : v = w := by
  obtain ⟨fields, rfl⟩ := exists_fields_of_isMapping hv_map
  obtain ⟨others, rfl⟩ := exists_fields_of_isMapping hw_map
  exact congrArg Value.mapping (hv.fields.eq_of_get? hw.fields same)

/-- Writing a document that is no mapping puts it in place of whatever is there. -/
theorem writeAll_of_isMapping_false (h : incoming.isMapping = false) (hne : writes ≠ [])
    (hwrites : ∀ steps x, (steps, x) ∈ writes ↔ IsLeaf incoming steps x) (existing : Value) :
    writeAll writes existing = existing.merge incoming := by
  rw [merge_of_isMapping_false h]
  refine writeAll_of_root (fun write mem => ?_) (.inr hne)
  obtain ⟨hsteps, hx⟩ := (isLeaf_of_isMapping_false h).1 ((hwrites _ _).1 mem)
  exact Prod.ext hsteps hx

/-- Writing the leaves of a document without empty mappings merges it in. -/
theorem writeAll_eq_merge (hincoming : incoming.Ordered) (hexisting : existing.Ordered)
    (full : ∀ keys, under keys incoming ≠ some (.mapping []))
    (hwrites : ∀ steps x, (steps, x) ∈ writes ↔ IsLeaf incoming steps x) :
    writeAll writes existing = existing.merge incoming := by
  induction hincoming generalizing existing writes with
  | @scalar v h =>
    have hmap : v.isMapping = false := (Bool.or_eq_false_iff.1 h).1
    have hleaf : ([], v) ∈ writes :=
      (hwrites _ _).2 ((isLeaf_of_isMapping_false hmap).2 ⟨rfl, rfl⟩)
    exact writeAll_of_isMapping_false hmap (List.ne_nil_of_mem hleaf) hwrites existing
  | @sequence items _ _ =>
    have hleaf : ([], sequence items) ∈ writes :=
      (hwrites _ _).2 ((isLeaf_of_isMapping_false rfl).2 ⟨rfl, rfl⟩)
    exact writeAll_of_isMapping_false rfl (List.ne_nil_of_mem hleaf) hwrites existing
  | @mapping fields ordered values_ordered ih =>
    have hmapping : Ordered (.mapping fields) := .mapping ordered values_ordered
    have hkeys : ∀ write ∈ writes, ∃ name rest, write.1 = .key name :: rest := fun write mem =>
      ((hwrites _ _).1 mem).exists_key
    have hunder (key : String) (rest : List Step) (x : Value) :
        (rest, x) ∈ writesUnder key writes ↔
          ∃ child, child? (.key key) (.mapping fields) = some child ∧ IsLeaf child rest x := by
      rw [mem_writesUnder, hwrites, isLeaf_key_cons]
    -- both sides are mappings in order, so they are compared key by key
    have hchild (key : String) : child? (.key key) (writeAll writes existing) =
        child? (.key key) (existing.merge (.mapping fields)) := by
      rw [child?_writeAll hkeys]
      cases hc : child? (.key key) (.mapping fields) with
      | none =>
        have hnone : writesUnder key writes = [] := by
          refine List.eq_nil_iff_forall_not_mem.2 fun write mem => ?_
          obtain ⟨child, hchild, -⟩ := (hunder key write.1 write.2).1 mem
          rw [hc] at hchild
          cases hchild
        rw [if_pos hnone, child?_merge_of_none rfl hc]
      | some child =>
        have hfull (keys : List String) : under keys child ≠ some (.mapping []) := fun h =>
          full (key :: keys) (by rw [under_cons, hc, Option.bind_some, h])
        have hwrites' (rest : List Step) (x : Value) :
            (rest, x) ∈ writesUnder key writes ↔ IsLeaf child rest x := by
          rw [hunder, hc]
          simp only [Option.some.injEq, exists_eq_left']
        obtain ⟨rest, x, hleaf⟩ := exists_isLeaf (hmapping.of_get? hc) hfull
        have hsome : writesUnder key writes ≠ [] := List.ne_nil_of_mem ((hwrites' rest x).2 hleaf)
        rw [if_neg hsome, child?_merge_of_some hmapping hc,
          ih (key, child) (Fields.mem_of_get? hc) (hexisting.slot _) hfull hwrites']
    obtain ⟨steps, x, hleaf⟩ := exists_isLeaf hmapping full
    have hne : writes ≠ [] := List.ne_nil_of_mem ((hwrites steps x).2 hleaf)
    have hordered : (writeAll writes existing).Ordered := hexisting.writeAll fun write mem => by
      obtain ⟨keys, -, hx, -⟩ := (hwrites _ _).1 mem
      exact hmapping.get? hx
    exact hordered.eq_of_child? (hmapping.merge hexisting) (isMapping_writeAll hkeys (.inr hne))
      (isMapping_merge existing (.mapping fields)) hchild

/-- The leaves of a mapping are known, each a path of keys and what is found there. Where no mapping
below the incoming one is empty, setting all of its leaves, in any order and as often as one likes,
succeeds, and leaves what the merge does. -/
theorem setEach_leaves_eq_merge {d s : Fields Value} (hd : Ordered (.mapping d))
    (hs : Ordered (.mapping s))
    (full : ∀ keys, keys ≠ [] → under keys (.mapping s) ≠ some (.mapping [])) :
    (∀ p x, (p, x) ∈ leaves s ↔ ∃ keys, p.steps = keys.map Step.key ∧
      under keys (.mapping s) = some x ∧ x.isMapping = false) ∧
    ∀ writes, (∀ leaf, leaf ∈ writes ↔ leaf ∈ leaves s) →
      setEach writes (.mapping d) = (.ok (), .mapping (Fields.merge d s)) := by
  refine ⟨fun p x => mem_leaves hs, fun writes hwrites => ?_⟩
  have hleaf (p : Path) (x : Value) : (p, x) ∈ writes ↔ IsLeaf (.mapping s) p.steps x := by
    rw [hwrites, mem_leaves hs]
  have hkeys : ∀ write ∈ writes, ∃ keys : List String, write.1.steps = keys.map Step.key := by
    intro write mem
    obtain ⟨keys, hsteps, -⟩ := (hleaf _ _).1 mem
    exact ⟨keys, hsteps⟩
  rw [setEach_eq hkeys]
  cases s with
  | nil =>
    have hnone : writes = [] := by
      refine List.eq_nil_iff_forall_not_mem.2 fun write mem => ?_
      have hmem := (hwrites write).1 mem
      rw [leaves] at hmem
      cases hmem
    rw [hnone, Fields.merge, Fields.overlay]
    rfl
  | cons entry rest =>
    have hfull : ∀ keys, under keys (.mapping (entry :: rest)) ≠ some (.mapping []) := by
      intro keys
      cases keys with
      | nil => rintro ⟨⟩
      | cons key more => exact full _ (List.cons_ne_nil key more)
    have hsteps : ∀ steps x, (steps, x) ∈ writes.map (fun write => (write.1.steps, write.2)) ↔
        IsLeaf (.mapping (entry :: rest)) steps x := by
      intro steps x
      rw [List.mem_map]
      constructor
      · rintro ⟨⟨p, y⟩, mem, h⟩
        cases h
        exact (hleaf p y).1 mem
      · intro h
        obtain ⟨key, more, rfl⟩ := h.exists_key
        exact ⟨(⟨.key key :: more, List.cons_ne_nil _ _⟩, x), (hleaf _ _).2 h, rfl⟩
    rw [writeAll_eq_merge hs hd hfull hsteps, merge_mapping_mapping]

/-- Leaves below a text and a sequence that give way, written with the last one first. -/
theorem setEach_leaves_eq_merge_reversed :
    let d : Fields Value := [("a", .text "old"), ("b", .sequence []), ("z", .null)]
    let s : Fields Value :=
      [("a", .mapping [("x", .int 1), ("y", .null)]), ("b", .mapping [("c", .sequence [])])]
    (Ordered (.mapping d) ∧ Ordered (.mapping s) ∧
      ∀ keys, keys ≠ [] → under keys (.mapping s) ≠ some (.mapping [])) ∧
    setEach (leaves s).reverse (.mapping d) = (.ok (), .mapping [
      ("a", .mapping [("x", .int 1), ("y", .null)]), ("b", .mapping [("c", .sequence [])]),
      ("z", .null)]) := by
  intro d s
  have dkeys : Fields.Ordered d := by
    dsimp only [d, Fields.Ordered]
    decide
  have skeys : Fields.Ordered s := by
    dsimp only [s, Fields.Ordered]
    decide
  have hd : Ordered (.mapping d) := .mapping dkeys fun entry mem => by
    simp only [d, List.mem_cons, List.not_mem_nil, or_false] at mem
    rcases mem with rfl | rfl | rfl
    · exact .scalar rfl
    · exact .sequence fun _ mem => absurd mem List.not_mem_nil
    · exact .scalar rfl
  have hs : Ordered (.mapping s) := .mapping skeys fun entry mem => by
    simp only [s, List.mem_cons, List.not_mem_nil, or_false] at mem
    rcases mem with rfl | rfl
    · refine .mapping (List.pairwise_pair.2 (by decide)) fun entry mem => .scalar ?_
      simp only [List.mem_cons, List.not_mem_nil, or_false] at mem
      rcases mem with rfl | rfl <;> rfl
    · exact .mapping (List.pairwise_singleton _ _) (by simp [Ordered.sequence])
  have full : ∀ keys, keys ≠ [] → under keys (.mapping s) ≠ some (.mapping []) := by
    intro keys hne
    refine under_ne_empty (fun entry mem keys => ?_) hne
    simp only [s, List.mem_cons, List.not_mem_nil, or_false] at mem
    by_cases hnil : keys = []
    · subst hnil
      rcases mem with rfl | rfl <;> rintro ⟨⟩
    · rcases mem with rfl | rfl <;>
        exact under_ne_empty (by simp [under_ne_empty_of_isMapping_false, isMapping, kind]) hnil
  have hmerge : Fields.merge d s = [("a", .mapping [("x", .int 1), ("y", .null)]),
      ("b", .mapping [("c", .sequence [])]), ("z", .null)] := by cbv
  refine ⟨⟨hd, hs, full⟩, ?_⟩
  rw [← hmerge]
  exact (setEach_leaves_eq_merge hd hs full).2 _ fun leaf => List.mem_reverse

end Value

end DocPath
