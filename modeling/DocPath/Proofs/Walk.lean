import DocPath.Document.Access

/-!
# Walks that create nothing

Everything here is about one step first and about lists of steps by induction from it. Reading
along `p ++ q` is reading along `p` and then along `q`. `put` changes the node that steps lead to
and nothing else: whatever parts from those steps reads as before.
-/

namespace DocPath

/-- Of two lists of steps one goes on after the other, or they part at a first step. -/
theorem steps_cases : ∀ p q : List Step,
    (∃ rest, q = p ++ rest) ∨ (∃ step rest, p = q ++ step :: rest) ∨
      ∃ common s t pr qr, s ≠ t ∧ p = common ++ s :: pr ∧ q = common ++ t :: qr
  | [], q => .inl ⟨q, rfl⟩
  | s :: p, [] => .inr (.inl ⟨s, p, rfl⟩)
  | s :: p, t :: q => by
    by_cases h : s = t
    · subst h
      rcases steps_cases p q with
        ⟨rest, rfl⟩ | ⟨step, rest, rfl⟩ | ⟨common, a, b, pr, qr, hab, rfl, rfl⟩
      · exact .inl ⟨rest, rfl⟩
      · exact .inr (.inl ⟨step, rest, rfl⟩)
      · exact .inr (.inr ⟨s :: common, a, b, pr, qr, hab, rfl, rfl⟩)
    · exact .inr (.inr ⟨[], s, t, p, q, h, rfl, rfl⟩)

/-- Two lists of steps of which neither begins the other part at a first step. -/
theorem exists_parting {p q : List Step} (hpq : ¬p <+: q) (hqp : ¬q <+: p) :
    ∃ common s t pr qr, s ≠ t ∧ p = common ++ s :: pr ∧ q = common ++ t :: qr := by
  rcases steps_cases p q with ⟨rest, rfl⟩ | ⟨step, rest, rfl⟩ | hparts
  · exact absurd (List.prefix_append p rest) hpq
  · exact absurd (List.prefix_append q _) hqp
  · exact hparts

namespace Value

/-! ### One step -/

theorem child?_key_eq_some {name : String} {v child : Value} :
    child? (.key name) v = some child ↔
      ∃ fields, v = .mapping fields ∧ Fields.get? name fields = some child := by
  cases v <;> simp [child?]

theorem child?_index_eq_some {position : UInt64} {v child : Value} :
    child? (.index position) v = some child ↔
      ∃ items, v = .sequence items ∧ items[position.toNat]? = some child := by
  cases v <;> simp [child?]

theorem child?_null (step : Step) : child? step .null = none := by cases step <;> rfl

/-- Putting a node one step down leaves all other steps as they are. -/
theorem child?_setChild_of_ne {s t : Step} (h : t ≠ s) (child v : Value) :
    child? t (setChild child s v) = child? t v := by
  cases s with
  | key name => cases t with
    | key other => cases v with
      | mapping fields => exact Fields.get?_insert_of_ne (fun e => h (congrArg _ e)) child fields
      | _ => rfl
    | index j => cases v <;> rfl
  | index i => cases t with
    | key other => cases v <;> rfl
    | index j => cases v with
      | sequence items =>
        have hij : i.toNat ≠ j.toNat := fun e => h (congrArg _ (UInt64.toNat_inj.1 e.symm))
        exact List.getElem?_set_ne hij
      | _ => rfl

theorem setChild_setChild (first second : Value) (step : Step) (v : Value) :
    setChild second step (setChild first step v) = setChild second step v := by
  cases step with
  | key name => cases v with
    | mapping fields => exact congrArg mapping (Fields.insert_insert name first second fields)
    | _ => rfl
  | index i => cases v with
    | sequence items => exact congrArg sequence (List.set_set first)
    | _ => rfl

/-- Putting back the node that is there changes nothing. -/
theorem setChild_of_child? {step : Step} {v child : Value} (h : child? step v = some child) :
    setChild child step v = v := by
  cases step with
  | key name =>
    obtain ⟨fields, rfl, hc⟩ := child?_key_eq_some.1 h
    exact congrArg mapping (Fields.insert_of_get? hc)
  | index i =>
    obtain ⟨items, rfl, hc⟩ := child?_index_eq_some.1 h
    obtain ⟨hi, rfl⟩ := List.getElem?_eq_some_iff.1 hc
    exact congrArg sequence (List.set_getElem_self hi)

/-- A node put in place of another one is found there. -/
theorem child?_setChild_self {step : Step} {v old : Value} (h : child? step v = some old)
    (child : Value) : child? step (setChild child step v) = some child := by
  cases step with
  | key name =>
    obtain ⟨fields, rfl, -⟩ := child?_key_eq_some.1 h
    exact Fields.get?_insert_self name child fields
  | index i =>
    obtain ⟨items, rfl, hc⟩ := child?_index_eq_some.1 h
    exact List.getElem?_set_self (List.getElem?_eq_some_iff.1 hc).1

/-- Taking a key away leaves all other steps as they are. -/
theorem child?_dropChild_of_ne {name : String} {t : Step} (h : t ≠ .key name) (v : Value) :
    child? t (dropChild (.key name) v) = child? t v := by
  cases t with
  | key other => cases v with
    | mapping fields => exact Fields.get?_erase_of_ne (fun e => h (congrArg _ e)) fields
    | _ => rfl
  | index j => cases v <;> rfl

/-- A key that was taken away leads nowhere. -/
theorem child?_dropChild_self (name : String) (v : Value) :
    child? (.key name) (dropChild (.key name) v) = none := by
  cases v with
  | mapping fields => exact Fields.get?_erase_self name fields
  | _ => rfl

theorem slot_of_child? {step : Step} {v child : Value} (h : child? step v = some child) :
    slot step v = child := by
  rw [slot, h]
  rfl

theorem slot_of_child?_none {step : Step} {v : Value} (h : child? step v = none) :
    slot step v = .null := by
  rw [slot, h]
  rfl

/-! ### Reading along steps -/

@[simp]
theorem get?_nil (v : Value) : get? [] v = some v := rfl

theorem get?_cons (step : Step) (rest : List Step) (v : Value) :
    get? (step :: rest) v = (child? step v).bind (get? rest) := by
  rw [get?]
  cases child? step v <;> rfl

theorem get?_cons_eq_some {step : Step} {rest : List Step} {v node : Value} :
    get? (step :: rest) v = some node ↔
      ∃ child, child? step v = some child ∧ get? rest child = some node := by
  rw [get?_cons, Option.bind_eq_some_iff]

theorem get?_cons_of_child? {step : Step} {v child : Value} (h : child? step v = some child)
    (rest : List Step) : get? (step :: rest) v = get? rest child := by
  rw [get?_cons, h, Option.bind_some]

theorem get?_cons_of_child?_none {step : Step} {v : Value} (h : child? step v = none)
    (rest : List Step) : get? (step :: rest) v = none := by
  rw [get?_cons, h, Option.bind_none]

/-- Reading along one list of steps after the other. -/
theorem get?_append : ∀ (p q : List Step) (v : Value),
    get? (p ++ q) v = (get? p v).bind (get? q)
  | [], _, _ => rfl
  | step :: p, q, v => by
    rw [List.cons_append, get?_cons, get?_cons]
    cases child? step v with
    | none => rfl
    | some child => exact get?_append p q child

theorem get?_append_of_get? {p : List Step} {v node : Value} (h : get? p v = some node)
    (q : List Step) : get? (p ++ q) v = get? q node := by
  rw [get?_append, h, Option.bind_some]

/-- Nothing lies below null. -/
theorem get?_null (p : List Step) : get? p .null = if p = [] then some .null else none := by
  cases p with
  | nil => rfl
  | cons step rest => exact get?_cons_of_child?_none (child?_null step) rest

/-- A missing child reads like null, but for the child itself. -/
theorem get?_cons_slot (step : Step) {rest : List Step} (h : rest ≠ []) (v : Value) :
    get? (step :: rest) v = get? rest (slot step v) := by
  cases hc : child? step v with
  | none => rw [get?_cons_of_child?_none hc, slot_of_child?_none hc, get?_null, if_neg h]
  | some child => rw [get?_cons_of_child? hc, slot_of_child? hc]

/-- What is found in a slot and is not null is there. -/
theorem get?_cons_of_slot {step : Step} {rest : List Step} {v node : Value}
    (h : get? rest (slot step v) = some node) (hn : node.isNull = false) :
    get? (step :: rest) v = some node := by
  cases hc : child? step v with
  | some child => rw [get?_cons_of_child? hc, ← slot_of_child? hc, h]
  | none =>
    rw [slot_of_child?_none hc, get?_null] at h
    split at h <;> cases h
    cases hn

/-! ### Putting a node where another one is -/

/-- Puts a node in place of the one that steps lead to. -/
def put (node : Value) : List Step → Value → Value
  | [], _ => node
  | step :: rest, v => setChild (put node rest (slot step v)) step v

theorem get?_put {p : List Step} {v old : Value} (h : get? p v = some old) (node : Value) :
    get? p (put node p v) = some node := by
  induction p generalizing v with
  | nil => rfl
  | cons step rest ih =>
    obtain ⟨child, hc, hr⟩ := get?_cons_eq_some.1 h
    rw [put, slot_of_child? hc, get?_cons_of_child? (child?_setChild_self hc _)]
    exact ih hr

/-- A node put somewhere shows at all steps below. -/
theorem get?_put_append {p : List Step} {v old : Value} (h : get? p v = some old) (node : Value)
    (q : List Step) : get? (p ++ q) (put node p v) = get? q node :=
  get?_append_of_get? (get?_put h node) q

/-- Whatever parts from the steps reads as before. -/
theorem get?_put_of_ne {s t : Step} (hst : t ≠ s) {common : List Step} {pr qr : List Step}
    {v old : Value} (h : get? (common ++ s :: pr) v = some old) (node : Value) :
    get? (common ++ t :: qr) (put node (common ++ s :: pr) v) = get? (common ++ t :: qr) v := by
  induction common generalizing v with
  | nil =>
    rw [List.nil_append, List.nil_append, put, get?_cons, get?_cons, child?_setChild_of_ne hst]
  | cons step rest ih =>
    obtain ⟨child, hc, hr⟩ := get?_cons_eq_some.1 h
    rw [List.cons_append, List.cons_append, put, slot_of_child? hc, get?_cons_of_child? hc,
      get?_cons_of_child? (child?_setChild_self hc _)]
    exact ih hr

theorem put_self {p : List Step} {v node : Value} (h : get? p v = some node) :
    put node p v = v := by
  induction p generalizing v with
  | nil => exact (Option.some.inj h).symm
  | cons step rest ih =>
    obtain ⟨child, hc, hr⟩ := get?_cons_eq_some.1 h
    rw [put, slot_of_child? hc, ih hr, setChild_of_child? hc]

theorem put_put {p : List Step} {v old : Value} (h : get? p v = some old) (first second : Value) :
    put second p (put first p v) = put second p v := by
  induction p generalizing v with
  | nil => rfl
  | cons step rest ih =>
    obtain ⟨child, hc, hr⟩ := get?_cons_eq_some.1 h
    rw [put, put, put, slot_of_child? hc, slot_of_child? (child?_setChild_self hc _),
      setChild_setChild, ih hr]

/-- Putting a node below a node is putting the changed node there. -/
theorem put_append {p : List Step} {v inner : Value} (h : get? p v = some inner) (node : Value)
    (q : List Step) : put node (p ++ q) v = put (put node q inner) p v := by
  induction p generalizing v with
  | nil => rw [List.nil_append, put, Option.some.inj h]
  | cons step rest ih =>
    obtain ⟨child, hc, hr⟩ := get?_cons_eq_some.1 h
    rw [List.cons_append, put, put, slot_of_child? hc, ih hr]

end Value

end DocPath
