import DocPath.Proofs.Write

/-!
# What a document reads after a write

A path can lie in four ways against the path that was written: on it or below it, above it, or
beside it, where the two part at a first step. The first reads from the new value and the second is
the container that the next step needs. What lies beside is untouched, but for the nulls that a
sequence was filled up with, and for a node that had to give way to a container of another kind.
-/

namespace DocPath

namespace Value

/-- How many items lie in the sequence at the end of some steps; none if anything else is there. -/
def lengthAt (p : List Step) (v : Value) : Nat := match get? p v with
  | some (.sequence items) => items.length
  | _ => 0

/-- What is read beside a write. Both go along `common`, then the write goes on with `written` and
the read with `read` and `rest`. -/
def readBeside (common : List Step) (written read : Step) (rest : List Step) (v : Value) :
    Option Value :=
  match written, read with
  | .key _, .key _ => get? (common ++ read :: rest) v
  | .index i, .index j =>
    if lengthAt common v ≤ j.toNat ∧ j.toNat < i.toNat then
      if rest = [] then some .null else none
    else get? (common ++ read :: rest) v
  | _, _ => none

/-- What counts below a step is what lies in its slot. -/
theorem lengthAt_cons (step : Step) (p : List Step) (v : Value) :
    lengthAt (step :: p) v = lengthAt p (slot step v) := by
  cases hc : child? step v with
  | some child => rw [lengthAt, get?_cons_of_child? hc, slot_of_child? hc, lengthAt]
  | none =>
    rw [lengthAt, get?_cons_of_child?_none hc, slot_of_child?_none hc, lengthAt, get?_null]
    split <;> simp_all

theorem lengthAt_nil_of_openItems? {v : Value} {items : List Value}
    (h : openItems? v = some items) : lengthAt [] v = items.length := by
  rcases openItems?_eq_some.1 h with rfl | ⟨rfl, rfl⟩ <;> rfl

theorem readBeside_cons (step : Step) (common : List Step) (s t : Step) (rest : List Step)
    (v : Value) :
    readBeside (step :: common) s t rest v = readBeside common s t rest (slot step v) := by
  have hget : get? (step :: common ++ t :: rest) v = get? (common ++ t :: rest) (slot step v) :=
    get?_cons_slot step (by simp) v
  cases s <;> cases t <;> simp only [readBeside, lengthAt_cons, hget]

/-- Other steps from a node that was made ready for one. -/
theorem get?_of_prepare {s t : Step} (hst : s ≠ t) {v w : Value} (h : prepare s v = (none, w))
    (rest : List Step) : get? (t :: rest) w = readBeside [] s t rest v := by
  cases s with
  | key name =>
    cases h
    cases t with
    | key other => cases v <;> rfl
    | index j => rfl
  | index i =>
    obtain ⟨items, hv, -, rfl⟩ := prepare_index_eq_none.1 h
    cases t with
    | key other => rfl
    | index j =>
      have hij : i.toNat ≠ j.toNat := fun e => hst (congrArg Step.index (UInt64.toNat_inj.1 e))
      rw [readBeside, lengthAt_nil_of_openItems? hv, List.nil_append, get?_cons, get?_cons,
        child?_index_of_openItems? hv, child?, getElem?_padTo]
      by_cases hpad : items.length ≤ j.toNat ∧ j.toNat < i.toNat
      · rw [if_pos hpad, if_pos (by omega), Option.bind_some, get?_null]
      · rw [if_neg hpad, if_neg (by omega)]

section

variable {α : Type} {edit : Value → α × Value} {v v' : Value} {a : α}

/-- Above the write lie the containers that its steps need. -/
theorem get?_above_zoom {q : List Step} {step : Step} {rest : List Step}
    (h : zoom edit (q ++ step :: rest) v = (.ok a, v')) :
    ∃ node, get? q v' = some node ∧ admits step node = true := by
  induction q generalizing v v' with
  | nil =>
    obtain ⟨w, child, hp, -, rfl⟩ := zoom_cons_ok edit h
    exact ⟨_, rfl, by rw [admits_setChild, admits_of_prepare hp]⟩
  | cons first q ih =>
    obtain ⟨w, child, hp, hz, rfl⟩ := zoom_cons_ok edit h
    obtain ⟨node, hget, hadm⟩ := ih hz
    exact ⟨node, by rw [get?_cons_of_child? (child?_setChild_of_prepare hp child), hget], hadm⟩

/-- Beside the write. -/
theorem get?_beside_zoom {common : List Step} {s t : Step} (hst : s ≠ t) {pr : List Step}
    (qr : List Step) (h : zoom edit (common ++ s :: pr) v = (.ok a, v')) :
    get? (common ++ t :: qr) v' = readBeside common s t qr v := by
  induction common generalizing v v' with
  | nil =>
    obtain ⟨w, child, hp, -, rfl⟩ := zoom_cons_ok edit h
    rw [List.nil_append, ← get?_of_prepare hst hp, get?_cons, get?_cons,
      child?_setChild_of_ne (Ne.symm hst)]
  | cons first common ih =>
    obtain ⟨w, child, hp, hz, rfl⟩ := zoom_cons_ok edit h
    rw [List.cons_append, get?_cons_of_child? (child?_setChild_of_prepare hp child), ih hz,
      readBeside_cons]

/-- Whatever is read beside the write and goes through a position lies within the sequence. -/
theorem lt_lengthAt_of_get? {common : List Step} {j : UInt64} {rest : List Step} {x : Value}
    (h : get? (common ++ .index j :: rest) v = some x) : j.toNat < lengthAt common v := by
  rw [get?_append, Option.bind_eq_some_iff] at h
  obtain ⟨node, hnode, hrest⟩ := h
  obtain ⟨child, hc, -⟩ := get?_cons_eq_some.1 hrest
  obtain ⟨items, rfl, hj⟩ := child?_index_eq_some.1 hc
  rw [lengthAt, hnode]
  exact (List.getElem?_eq_some_iff.1 hj).1

/-- A write that goes on by position from a node that is there found a sequence or null. -/
theorem openItems?_of_zoom_index {common : List Step} {i : UInt64} {rest : List Step} {node : Value}
    (hnode : get? common v = some node)
    (h : zoom edit (common ++ .index i :: rest) v = (.ok a, v')) :
    ∃ items, openItems? node = some items := by
  rw [zoom_append_of_get? edit hnode, Prod.mk.injEq, mapError_eq_ok] at h
  obtain ⟨w, child, hp, -, -⟩ := zoom_cons_ok edit (Prod.ext h.1 rfl)
  obtain ⟨items, hitems, -, -⟩ := prepare_index_eq_none.1 hp
  exact ⟨items, hitems⟩

/-- Beside a write nothing is lost, unless a key took the place of what was no mapping. -/
theorem get?_beside_zoom_of_some {common : List Step} {s t : Step} (hst : s ≠ t)
    {pr qr : List Step} {x : Value} (hx : get? (common ++ t :: qr) v = some x)
    (h : zoom edit (common ++ s :: pr) v = (.ok a, v')) :
    get? (common ++ t :: qr) v' = some x ∨
      ∃ name node, s = .key name ∧ get? common v = some node ∧ node.isMapping = false := by
  obtain ⟨node, hnode, hrest⟩ := Option.bind_eq_some_iff.1 (get?_append _ _ v ▸ hx)
  obtain ⟨child, hc, -⟩ := get?_cons_eq_some.1 hrest
  have hread := get?_beside_zoom hst qr h
  cases s with
  | key name => cases t with
    | key other => exact .inl (hread.trans hx)
    | index j =>
      obtain ⟨items, rfl, -⟩ := child?_index_eq_some.1 hc
      exact .inr ⟨name, _, rfl, hnode, rfl⟩
  | index i => cases t with
    | key other =>
      -- a mapping lies at the end of `common`, and no position goes on from there
      obtain ⟨fields, rfl, -⟩ := child?_key_eq_some.1 hc
      obtain ⟨items, hitems⟩ := openItems?_of_zoom_index hnode h
      cases hitems
    | index j =>
      have hj := lt_lengthAt_of_get? hx
      rw [readBeside, if_neg (by omega)] at hread
      exact .inl (hread.trans hx)

/-- Beside a write nothing is new but null. -/
theorem get?_beside_zoom_of_none {common : List Step} {s t : Step} (hst : s ≠ t)
    {pr qr : List Step} {x : Value} (hx : get? (common ++ t :: qr) v = none)
    (h : zoom edit (common ++ s :: pr) v = (.ok a, v'))
    (hx' : get? (common ++ t :: qr) v' = some x) : x = .null := by
  have hread := (get?_beside_zoom hst qr h).symm.trans hx'
  cases s <;> cases t <;> simp only [readBeside, hx] at hread
  · cases hread
  · cases hread
  · cases hread
  · split at hread
    · split at hread <;> cases hread
      rfl
    · cases hread

end

/-- Everything that can be read after a write. On the path and below it that is the new value, and
above it the containers on the way. Beside it, two keys do not disturb each other; of two positions
the one read may be among the nulls that the sequence was filled up with; and where one goes by key
and the other by position there is nothing to read. So nothing is lost but what hangs from a node
that a key walked through and that was no mapping, and nothing is new but the nulls. -/
theorem getAt_of_setAt {d d' v : Value} {p : Path} (h : d.setAt p v = (.ok (), d')) :
    (∀ (q : Path) rest, q.steps = p.steps ++ rest → d'.getAt q = get? rest v) ∧
    (∀ (q : Path) name rest, p.steps = q.steps ++ .key name :: rest →
      ∃ fields, d'.getAt q = some (.mapping fields)) ∧
    (∀ (q : Path) i rest, p.steps = q.steps ++ .index i :: rest →
      ∃ items, d'.getAt q = some (.sequence items)) ∧
    (∀ (q : Path) common s t pr qr, s ≠ t → p.steps = common ++ s :: pr →
      q.steps = common ++ t :: qr → d'.getAt q = match s, t with
        | .key _, .key _ => d.getAt q
        | .index i, .index j =>
          if lengthAt common d ≤ j.toNat ∧ j.toNat < i.toNat then
            if qr = [] then some .null else none
          else d.getAt q
        | _, _ => none) ∧
    (∀ (q : Path) x, ¬p.steps <+: q.steps → ¬q.steps <+: p.steps → d.getAt q = some x →
      d'.getAt q = some x ∨ ∃ common name rest node, p.steps = common ++ .key name :: rest ∧
        common <+: q.steps ∧ get? common d = some node ∧ node.isMapping = false) ∧
    (∀ (q : Path) x, ¬p.steps <+: q.steps → ¬q.steps <+: p.steps → d.getAt q = none →
      d'.getAt q = some x → x = .null) := by
  have hz := (editAt_eq_ok _).1 h
  refine ⟨?_, ?_, ?_, ?_, ?_, ?_⟩
  · intro q rest e
    obtain ⟨node, -, hget, -⟩ := zoom_ok _ hz
    rw [getAt, e, get?_append_of_get? hget]
  · intro q name rest e
    obtain ⟨node, hget, hadm⟩ := get?_above_zoom (e ▸ hz)
    cases node with
    | mapping fields => exact ⟨fields, hget⟩
    | _ => cases hadm
  · intro q i rest e
    obtain ⟨node, hget, hadm⟩ := get?_above_zoom (e ▸ hz)
    cases node with
    | sequence items => exact ⟨items, hget⟩
    | _ => cases hadm
  · intro q common s t pr qr hst ep eq
    rw [getAt, getAt, eq, get?_beside_zoom hst qr (ep ▸ hz)]
    cases s <;> cases t <;> rfl
  · intro q x hpq hqp hx
    obtain ⟨common, s, t, pr, qr, hst, ep, eq⟩ := exists_parting hpq hqp
    rw [getAt, eq] at hx ⊢
    refine (get?_beside_zoom_of_some hst hx (ep ▸ hz)).imp_right ?_
    rintro ⟨name, node, rfl, hnode, hmap⟩
    exact ⟨common, name, pr, node, ep, ⟨t :: qr, rfl⟩, hnode, hmap⟩
  · intro q x hpq hqp hx hx'
    obtain ⟨common, s, t, pr, qr, hst, ep, eq⟩ := exists_parting hpq hqp
    rw [getAt, eq] at hx hx'
    exact get?_beside_zoom_of_none hst hx (ep ▸ hz) hx'

/-- A write at `a[2].b` where `a` has one item: `a[1]` is filled in, and `a.b` is not there. -/
theorem getAt_of_setAt_short_sequence :
    let d : Value := .mapping [("a", .sequence [.bool true])]
    let d' : Value :=
      .mapping [("a", .sequence [.bool true, .null, .mapping [("b", .text "x")]])]
    setAt d ⟨[.key "a", .index 2, .key "b"], List.cons_ne_nil _ _⟩ (.text "x") = (.ok (), d') ∧
      getAt d' ⟨[.key "a", .index 1], List.cons_ne_nil _ _⟩ = some .null ∧
      getAt d' ⟨[.key "a", .key "b"], List.cons_ne_nil _ _⟩ = none := by
  intro d d'
  have h : setAt d ⟨[.key "a", .index 2, .key "b"], List.cons_ne_nil _ _⟩ (.text "x") =
      (.ok (), d') := rfl
  obtain ⟨-, -, -, beside, -, -⟩ := getAt_of_setAt h
  refine ⟨h, ?_, ?_⟩
  · exact beside _ [.key "a"] (.index 2) (.index 1) [.key "b"] [] (by decide) rfl rfl
  · exact beside _ [.key "a"] (.index 2) (.key "b") [.key "b"] [] (by decide) rfl rfl

end Value

end DocPath
