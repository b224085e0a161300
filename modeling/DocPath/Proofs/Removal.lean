import DocPath.Proofs.Write
import Mathlib.Order.Bounds.Defs

/-!
# Taking a node away

A removal walks as a read does. Where the read finds a node the removal takes it out, and where the
read stops the kind of the node it stopped at decides between an answer and an error. It is `put`
with the parent less its child, so nothing changes but below the parent: by key the child is gone,
by position the later items move up.
-/

namespace DocPath

namespace Value

variable {step : Step} {d v node child : Value}

/-! ### Where the walk stops -/

/-- Steps lead to a node, or there is a first one that leads nowhere. -/
theorem get?_or_stops (p : List Step) (d : Value) : (∃ x, get? p d = some x) ∨
    ∃ before step rest node, p = before ++ step :: rest ∧ get? before d = some node ∧
      child? step node = none := by
  induction p generalizing d with
  | nil => exact .inl ⟨d, rfl⟩
  | cons step rest ih => cases hc : child? step d with
    | none => exact .inr ⟨[], step, rest, d, rfl, rfl, hc⟩
    | some child =>
      rcases ih child with ⟨x, hx⟩ | ⟨before, next, after, node, rfl, hget, hn⟩
      · exact .inl ⟨x, by rw [get?_cons_of_child? hc, hx]⟩
      · exact .inr ⟨step :: before, next, after, node, rfl,
          by rw [get?_cons_of_child? hc, hget], hn⟩

/-- No more steps lead to a node than those before the one that leads nowhere. -/
theorem isGreatest_of_stops {before rest : List Step} (hget : get? before d = some node)
    (hc : child? step node = none) :
    IsGreatest {j | j ≤ (before ++ step :: rest).length ∧
      (get? ((before ++ step :: rest).take j) d).isSome} before.length := by
  constructor
  · refine ⟨by simp, ?_⟩
    rw [List.take_left, hget]
    rfl
  · rintro j ⟨-, hj⟩
    refine Nat.le_of_not_lt fun hlt => ?_
    obtain ⟨m, rfl⟩ := Nat.exists_eq_add_of_lt hlt
    rw [Nat.add_assoc, List.take_length_add_append, List.take_succ_cons,
      get?_append_of_get? hget, get?_cons_of_child?_none hc] at hj
    cases hj

/-! ### Detaching -/

theorem detach_single (h : child? step v = some child) :
    detach [step] v = .ok (some (child, dropChild step v)) := by
  simp only [detach, h]

/-- A step that leads nowhere ends the walk. -/
theorem detach_of_child?_none (h : child? step v = none) (rest : List Step) :
    detach (step :: rest) v =
      if v.isNull || admits step v then
        if rest = [] then .ok none else .error (.here .missing)
      else .error (.here (.wrongKind step.needs v.kind)) := by
  by_cases hm : (v.isNull || admits step v) = true
  · cases rest <;> simp only [detach, h, obstacle, if_pos hm, if_true, if_false, reduceCtorEq]
  · cases rest <;> simp only [detach, h, obstacle, if_neg hm]

/-- A step that leads somewhere is gone through, unless it is the final one. -/
theorem detach_of_child? (h : child? step v = some child) {rest : List Step} (hr : rest ≠ []) :
    detach (step :: rest) v = ((detach rest child).mapError Halt.deeper).map
      (Option.map fun found => (found.1, setChild found.2 step v)) := by
  obtain ⟨next, more, rfl⟩ := List.exists_cons_of_ne_nil hr
  rw [detach.eq_3 v step child next more h]
  cases detach (next :: more) child <;> rfl

/-- Below a node that is there a walk goes on from that node, and what it leaves is put back. -/
theorem detach_append_of_get? {p q : List Step} (h : get? p v = some node) (hq : q ≠ []) :
    detach (p ++ q) v = ((detach q node).mapError (Halt.below p.length)).map
      (Option.map fun found => (found.1, put found.2 p v)) := by
  induction p generalizing v with
  | nil =>
    obtain rfl := Option.some.inj h
    rw [List.nil_append, List.length_nil, Halt.below_zero]
    rcases detach q v with halt | _ | found <;> rfl
  | cons step rest ih =>
    obtain ⟨child, hc, hr⟩ := get?_cons_eq_some.1 h
    rw [List.cons_append, detach_of_child? hc (List.append_ne_nil_of_right_ne_nil rest hq), ih hr,
      List.length_cons, ← Halt.deeper_comp_below]
    rcases detach q node with halt | _ | found
    · rfl
    · rfl
    · simp only [mapError_ok, Except.map, Option.map_some, put, slot_of_child? hc]

/-- What is there is taken out of its parent. -/
theorem detach_of_get? {p : List Step} (hnode : get? p d = some node)
    (hc : child? step node = some child) :
    detach (p ++ [step]) d = .ok (some (child, put (dropChild step node) p d)) := by
  rw [detach_append_of_get? hnode (List.cons_ne_nil _ _), detach_single hc]
  rfl

/-! ### Removing at a path -/

variable {p : Path} {d' x : Value}

theorem steps_eq_concat (p : Path) : p.steps = p.steps.dropLast ++ [p.last] :=
  (List.dropLast_concat_getLast p.steps_ne_nil).symm

theorem length_dropLast_succ (p : Path) : p.steps.dropLast.length + 1 = p.length := by
  rw [List.length_dropLast, Path.length]
  exact Nat.sub_add_cancel (List.length_pos_iff.2 p.steps_ne_nil)

/-- A removal whose parent is there takes the child out of it. -/
theorem removeAt_of_parent (hnode : get? p.steps.dropLast d = some node)
    (hc : child? p.last node = some x) :
    d.removeAt p = (.ok (some x), put (dropChild p.last node) p.steps.dropLast d) := by
  have hdetach := detach_of_get? hnode hc
  rw [← steps_eq_concat] at hdetach
  rw [removeAt, hdetach]

/-- Where a path leads to a node, the removal answers with it and leaves its parent without it. -/
theorem removeAt_of_getAt (h : d.getAt p = some x) : ∃ node,
    get? p.steps.dropLast d = some node ∧ child? p.last node = some x ∧
      d.removeAt p = (.ok (some x), put (dropChild p.last node) p.steps.dropLast d) := by
  rw [getAt, steps_eq_concat, get?_append, Option.bind_eq_some_iff] at h
  obtain ⟨node, hnode, hlast⟩ := h
  obtain ⟨child, hc, hx⟩ := get?_cons_eq_some.1 hlast
  obtain rfl := Option.some.inj hx
  exact ⟨node, hnode, hc, removeAt_of_parent hnode hc⟩

/-- Where it leads nowhere, the document is kept, and the answer depends on the node at which the
walk stopped and on whether the step there is the final one. -/
theorem removeAt_of_stops {before rest : List Step} (e : p.steps = before ++ step :: rest)
    (hget : get? before d = some node) (hc : child? step node = none) :
    d.removeAt p =
      (if node.isNull || admits step node then
          if before.length + 1 = p.length then .ok none
          else .error (.notResolvable (p.textUpTo (before.length + 1)))
        else .error (.typeMismatch (p.location before.length) step.needs node.kind), d) := by
  have hlen : before.length + 1 = p.length ↔ rest = [] := by
    rw [Path.length, e, List.length_append, List.length_cons, ← List.length_eq_zero_iff]
    omega
  have hdet := detach_append_of_get? hget (List.cons_ne_nil step rest)
  rw [detach_of_child?_none hc] at hdet
  simp only [removeAt, e, hdet, hlen]
  by_cases hm : (node.isNull || admits step node) = true
  · by_cases hr : rest = [] <;> simp only [if_pos hm, if_pos, hr] <;> rfl
  · simp only [if_neg hm]
    rfl

/-- How a removal ends that finds no node: `i` steps lead somewhere, and the next one does not. -/
theorem removeAt_of_getAt_none (hnone : d.getAt p = none) : ∃ i step node,
    IsGreatest {j | j ≤ p.length ∧ (get? (p.steps.take j) d).isSome} i ∧
    p.steps[i]? = some step ∧ get? (p.steps.take i) d = some node ∧
    d.removeAt p =
      (if node.isNull || admits step node then
          if i + 1 = p.length then .ok none else .error (.notResolvable (p.textUpTo (i + 1)))
        else .error (.typeMismatch (p.location i) step.needs node.kind), d) := by
  rcases get?_or_stops p.steps d with ⟨x, hx⟩ | ⟨before, step, rest, node, e, hget, hc⟩
  · cases hnone.symm.trans hx
  · refine ⟨before.length, step, node, ?_, ?_, ?_, removeAt_of_stops e hget hc⟩
    · rw [Path.length, e]
      exact isGreatest_of_stops hget hc
    · rw [e, List.getElem?_append_right (Nat.le_refl _), Nat.sub_self, List.getElem?_cons_zero]
    · rw [e, List.take_left, hget]

/-- A removal that answers with a node found that node. -/
theorem getAt_of_removeAt (h : d.removeAt p = (.ok (some x), d')) : d.getAt p = some x := by
  cases hf : d.getAt p with
  | some found =>
    obtain ⟨node, -, -, hr⟩ := removeAt_of_getAt hf
    rw [hr] at h
    cases h
    rfl
  | none =>
    obtain ⟨i, step, node, -, -, -, hr⟩ := removeAt_of_getAt_none hf
    rw [hr] at h
    split at h
    · split at h <;> cases h
    · cases h

theorem removeAt_eq (d : Value) (p : Path) : d.removeAt p =
    (((detach p.steps d).map (Option.map Prod.fst)).mapError (Halt.error p),
      match detach p.steps d with
      | .ok (some found) => found.2
      | _ => d) := by
  rw [removeAt]
  rcases detach p.steps d with halt | _ | found <;> rfl

/-- Removing along a joined path is removing at the inner node and putting it back. An error counts
the steps from further up. -/
theorem removeAt_join {q : Path} (h : d.getAt q = some node) (r : Path) : d.removeAt (q.join r) =
    (((detach r.steps node).map (Option.map Prod.fst)).mapError
        fun halt => (halt.below q.length).error (q.join r),
      put (node.removeAt r).2 q.steps d) := by
  have hdet := detach_append_of_get? h r.steps_ne_nil
  rw [removeAt_eq, removeAt_eq, Path.join, hdet]
  rcases detach r.steps node with halt | _ | found
  · exact Prod.ext rfl (put_self h).symm
  · exact Prod.ext rfl (put_self h).symm
  · rfl

/-- Above the path, each node is left as a removal from that node leaves it. -/
theorem getAt_removeAt_above {q r : Path} (e : p = q.join r)
    (h : d.removeAt p = (.ok (some x), d')) :
    d'.getAt q = (d.getAt q).map fun node => (node.removeAt r).2 := by
  subst e
  have hx := getAt_of_removeAt h
  rw [getAt, Path.join, get?_append, Option.bind_eq_some_iff] at hx
  obtain ⟨node, hnode, -⟩ := hx
  obtain rfl : d' = _ := congrArg Prod.snd (h.symm.trans (removeAt_join hnode r))
  rw [getAt, getAt, get?_put hnode, hnode, Option.map_some]

/-- What a removal changes lies above the path or goes on from its parent. -/
theorem getAt_removeAt_or {q : Path} (h : d.removeAt p = (.ok (some x), d'))
    (hq : ¬q.steps <+: p.steps) : d'.getAt q = d.getAt q ∨
      ∃ t rest, q.steps = p.steps.dropLast ++ t :: rest := by
  obtain ⟨node, hnode, -, hrem⟩ := removeAt_of_getAt (getAt_of_removeAt h)
  obtain rfl : d' = _ := congrArg Prod.snd (h.symm.trans hrem)
  rcases steps_cases p.steps.dropLast q.steps with
    ⟨rest, e⟩ | ⟨step, rest, e⟩ | ⟨common, s, t, pr, qr, hst, ep, eq⟩
  · cases rest with
    | nil => exact absurd (e ▸ List.append_nil _ ▸ List.dropLast_prefix _) hq
    | cons t rest => exact .inr ⟨t, rest, e⟩
  · exact absurd (List.IsPrefix.trans ⟨_, e.symm⟩ (List.dropLast_prefix _)) hq
  · left
    rw [getAt, getAt, eq, ep]
    exact get?_put_of_ne (Ne.symm hst) (ep ▸ hnode) _

/-- The parent loses the child. -/
theorem get?_removeAt_parent {step : Step} (hlast : p.last = step)
    (h : d.removeAt p = (.ok (some x), d')) : ∃ node, get? p.steps.dropLast d = some node ∧
      child? step node = some x ∧ get? p.steps.dropLast d' = some (dropChild step node) := by
  subst hlast
  obtain ⟨node, hnode, hc, hrem⟩ := removeAt_of_getAt (getAt_of_removeAt h)
  obtain rfl : d' = _ := congrArg Prod.snd (h.symm.trans hrem)
  exact ⟨node, hnode, hc, get?_put hnode _⟩

/-- A key that was taken away leads nowhere any more, and all else is as it was. -/
theorem getAt_removeAt_key {name : String} (hlast : p.last = .key name)
    (h : d.removeAt p = (.ok (some x), d')) (q : Path) :
    (p.steps <+: q.steps → d'.getAt q = none) ∧
      (¬p.steps <+: q.steps → ¬q.steps <+: p.steps → d'.getAt q = d.getAt q) := by
  obtain ⟨node, hold, -, hnew⟩ := get?_removeAt_parent hlast h
  have e : p.steps = p.steps.dropLast ++ [.key name] := hlast ▸ steps_eq_concat p
  constructor
  · rintro ⟨rest, hq⟩
    rw [getAt, ← hq, e, List.append_assoc, get?_append_of_get? hnew, List.singleton_append,
      get?_cons_of_child?_none (child?_dropChild_self name node)]
  · intro hpq hqp
    refine (getAt_removeAt_or h hqp).elim id ?_
    rintro ⟨t, rest, hq⟩
    have ht : t ≠ .key name := by
      rintro rfl
      exact hpq ⟨rest, by rw [hq, e, List.dropLast_concat, List.append_assoc]; rfl⟩
    rw [getAt, getAt, hq, get?_append_of_get? hnew, get?_append_of_get? hold, get?_cons, get?_cons,
      child?_dropChild_of_ne ht]

/-- Taking a key away twice is taking it away once. -/
theorem removeAt_removeAt_key {name : String} (hlast : p.last = .key name)
    (h : d.removeAt p = (.ok (some x), d')) : d'.removeAt p = (.ok none, d') := by
  obtain ⟨node, -, hc, hnew⟩ := get?_removeAt_parent hlast h
  have e : p.steps = p.steps.dropLast ++ [.key name] := hlast ▸ steps_eq_concat p
  obtain ⟨fields, rfl, -⟩ := child?_key_eq_some.1 hc
  rw [removeAt_of_stops e hnew (child?_dropChild_self name _), if_pos (length_dropLast_succ p)]
  rfl

/-- What is read along `rest` from the item with number `n` in the sequence after some steps. -/
def readItem (p : List Step) (n : Nat) (rest : List Step) (d : Value) : Option Value :=
  ((get? p d).bind toItems?).bind fun items => items[n]?.bind (get? rest)

theorem get?_append_index (p : List Step) (j : UInt64) (rest : List Step) (d : Value) :
    get? (p ++ .index j :: rest) d = readItem p j.toNat rest d := by
  rw [get?_append, readItem]
  cases get? p d with
  | none => rfl
  | some node =>
    rw [Option.bind_some, Option.bind_some, get?_cons]
    cases node <;> rfl

/-- After an item was taken away the earlier ones are where they were, and the later ones one place
further up. -/
theorem readItem_removeAt_index {k : UInt64} (hlast : p.last = .index k)
    (h : d.removeAt p = (.ok (some x), d')) (n : Nat) (rest : List Step) :
    readItem p.steps.dropLast n rest d' =
      readItem p.steps.dropLast (if n < k.toNat then n else n + 1) rest d := by
  obtain ⟨node, hold, hc, hnew⟩ := get?_removeAt_parent hlast h
  obtain ⟨items, rfl, -⟩ := child?_index_eq_some.1 hc
  rw [readItem, readItem, hold, hnew]
  simp only [dropChild, Option.bind_some, toItems?, List.getElem?_eraseIdx]
  split <;> rfl

/-- What does not go through a position of the sequence is as it was. -/
theorem getAt_removeAt_index {k : UInt64} (hlast : p.last = .index k)
    (h : d.removeAt p = (.ok (some x), d')) {q : Path}
    (hj : ¬∃ j rest, q.steps = p.steps.dropLast ++ .index j :: rest) (hqp : ¬q.steps <+: p.steps) :
    d'.getAt q = d.getAt q := by
  obtain ⟨node, hold, hc, hnew⟩ := get?_removeAt_parent hlast h
  obtain ⟨items, rfl, -⟩ := child?_index_eq_some.1 hc
  refine (getAt_removeAt_or h hqp).elim id ?_
  rintro ⟨t, rest, hq⟩
  cases t with
  | index j => exact absurd ⟨j, rest, hq⟩ hj
  | key name =>
    rw [getAt, getAt, hq, get?_append_of_get? hnew, get?_append_of_get? hold]
    rfl

/-- How a removal ends, and everything that can be read after it. A node above the path is left as a
removal from that node leaves it, and what lies beside the path is untouched. By key the child is
gone, and a second removal finds nothing; by position the later items move up by one. -/
theorem removeAt_outcome (d : Value) (p : Path) :
    (∀ x, (d.removeAt p).1 = .ok (some x) ↔ d.getAt p = some x) ∧
    (d.getAt p = none → ∃ i step node,
      IsGreatest {j | j ≤ p.length ∧ (get? (p.steps.take j) d).isSome} i ∧
      p.steps[i]? = some step ∧ get? (p.steps.take i) d = some node ∧
      (d.removeAt p).1 =
        if node.isNull || admits step node then
          if i + 1 = p.length then .ok none else .error (.notResolvable (p.textUpTo (i + 1)))
        else .error (.typeMismatch (p.location i) step.needs node.kind)) ∧
    ((∀ x, (d.removeAt p).1 ≠ .ok (some x)) → (d.removeAt p).2 = d) ∧
    (∀ d' x, d.removeAt p = (.ok (some x), d') →
      (∀ q r : Path, p = q.join r → d'.getAt q = (d.getAt q).map fun node => (node.removeAt r).2) ∧
      (∀ name, p.last = .key name →
        (∀ q : Path, p.steps <+: q.steps → d'.getAt q = none) ∧
        (∀ q : Path, ¬p.steps <+: q.steps → ¬q.steps <+: p.steps → d'.getAt q = d.getAt q) ∧
        d'.removeAt p = (.ok none, d')) ∧
      (∀ k, p.last = .index k →
        (∀ (q : Path) j rest, q.steps = p.steps.dropLast ++ .index j :: rest →
          (j < k → d'.getAt q = d.getAt q) ∧
          (k ≤ j → d'.getAt q = readItem p.steps.dropLast (j.toNat + 1) rest d)) ∧
        (∀ q : Path, (¬∃ j rest, q.steps = p.steps.dropLast ++ .index j :: rest) →
          ¬q.steps <+: p.steps → d'.getAt q = d.getAt q))) := by
  refine ⟨fun x => ⟨fun h => getAt_of_removeAt (Prod.ext h rfl), fun h => ?_⟩, ?_, ?_, ?_⟩
  · obtain ⟨node, -, -, hrem⟩ := removeAt_of_getAt h
    rw [hrem]
  · intro hnone
    obtain ⟨i, step, node, hi, hstep, hnode, hrem⟩ := removeAt_of_getAt_none hnone
    exact ⟨i, step, node, hi, hstep, hnode, congrArg Prod.fst hrem⟩
  · intro hother
    cases hx : d.getAt p with
    | some x =>
      obtain ⟨node, -, -, hrem⟩ := removeAt_of_getAt hx
      exact absurd (congrArg Prod.fst hrem) (hother x)
    | none =>
      obtain ⟨i, step, node, -, -, -, hrem⟩ := removeAt_of_getAt_none hx
      rw [hrem]
  · intro d' x h
    refine ⟨fun q r e => getAt_removeAt_above e h, fun name hlast => ?_, fun k hlast => ?_⟩
    · exact ⟨fun q => (getAt_removeAt_key hlast h q).1, fun q => (getAt_removeAt_key hlast h q).2,
        removeAt_removeAt_key hlast h⟩
    · refine ⟨fun q j rest hq => ?_, fun q hj hqp => getAt_removeAt_index hlast h hj hqp⟩
      rw [getAt, getAt, hq, get?_append_index, get?_append_index, readItem_removeAt_index hlast h]
      exact ⟨fun hj => by rw [if_pos (UInt64.lt_iff_toNat_lt.1 hj)],
        fun hj => by rw [if_neg (Nat.not_lt.2 (UInt64.le_iff_toNat_le.1 hj))]⟩

end Value

end DocPath
