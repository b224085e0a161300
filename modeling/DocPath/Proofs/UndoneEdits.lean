import DocPath.Proofs.EditedOrder
import DocPath.Proofs.SequenceLimit

/-!
# Undoing a write by a removal, and a removal by a write

Both are told at the parent of the node: what is put one step down there can be taken away, and what
is taken away can be put back. Under a key that always leads back, as the entries are in order. At a
position it does at the end of a sequence, where no item moves up or down. Everything above the
parent is put back around it.

The limit for sequences is no obstacle to what was there before: where no sequence in a document is
longer than sequences are filled up to, its last item can always be put back.
-/

namespace DocPath

namespace Value

variable {step : Step} {d node w x : Value} {p : Path}

/-! ### At the parent -/

/-- A write whose parent is there makes the parent ready and puts the value one step down. -/
theorem setAt_of_parent (hnode : get? p.steps.dropLast d = some node)
    (hready : prepare p.last node = (none, w)) (x : Value) :
    d.setAt p x = (.ok (), put (setChild x p.last w) p.steps.dropLast d) := by
  refine (editAt_eq_ok _).2 ?_
  rw [steps_eq_concat, zoom_append_of_get? _ hnode, ← steps_eq_concat,
    zoom_cons_of_prepare _ hready]
  rfl

/-- A removal is undone if it is undone at the parent. -/
theorem setAt_of_removeAt {left : Value} (hnode : get? p.steps.dropLast d = some node)
    (hready : prepare p.last (dropChild p.last node) = (none, w))
    (hback : setChild x p.last w = node) (h : d.removeAt p = (.ok (some x), left)) :
    left.setAt p x = (.ok (), d) := by
  obtain ⟨parent, hparent, -, hremove⟩ := removeAt_of_getAt (getAt_of_removeAt h)
  obtain rfl := Option.some.inj (hparent.symm.trans hnode)
  obtain rfl : left = _ := congrArg Prod.snd (h.symm.trans hremove)
  rw [setAt_of_parent (get?_put hnode _) hready, put_put hnode, hback, put_self hnode]

/-- A write is undone if it is undone at the parent. -/
theorem removeAt_of_setAt (hnode : get? p.steps.dropLast d = some node)
    (hready : prepare p.last node = (none, w))
    (hback : dropChild p.last (setChild x p.last w) = node) :
    ∃ left, d.setAt p x = (.ok (), left) ∧ left.removeAt p = (.ok (some x), d) := by
  refine ⟨_, setAt_of_parent hnode hready x, ?_⟩
  have hchild := child?_setChild_of_prepare hready x
  have hparent := get?_put hnode (setChild x p.last w)
  rw [removeAt_of_parent hparent hchild, put_put hnode, hback, put_self hnode]

/-! ### One step -/

theorem setChild_dropChild_key {name : String} (ordered : node.Ordered)
    (h : child? (.key name) node = some x) :
    setChild x (.key name) (dropChild (.key name) node) = node := by
  obtain ⟨fields, rfl, hget⟩ := child?_key_eq_some.1 h
  exact congrArg mapping (ordered.fields.insert_erase hget)

theorem dropChild_setChild_key {name : String} {fields : Fields Value}
    (h : Fields.get? name fields = none) :
    dropChild (.key name) (setChild x (.key name) (.mapping fields)) = .mapping fields := by
  rw [setChild, dropChild, Fields.erase_insert_self, Fields.erase_of_get?_none h]

/-- Filling up to the position after the last item puts one null there. -/
theorem prepare_index_length {k : UInt64} {items : List Value} (h : items.length = k.toNat)
    (hk : k.toNat < positionLimit) :
    prepare (.index k) (.sequence items) = (none, .sequence (items ++ [.null])) := by
  refine prepare_index_eq_none.2 ⟨items, rfl, by omega, ?_⟩
  rw [padTo, h, Nat.add_sub_cancel_left]
  rfl

theorem setChild_index_length {k : UInt64} {items : List Value} (h : items.length = k.toNat) :
    setChild x (.index k) (.sequence (items ++ [.null])) = .sequence (items ++ [x]) := by
  rw [setChild, ← h, List.set_append_right _ _ (Nat.le_refl _), Nat.sub_self]
  rfl

theorem dropChild_index_length {k : UInt64} {items : List Value} (h : items.length = k.toNat) :
    dropChild (.index k) (.sequence (items ++ [x])) = .sequence items := by
  rw [dropChild, ← h, List.eraseIdx_append_of_length_le (Nat.le_refl _), Nat.sub_self]
  simp

/-- A sequence with something at its last position is what lies before that, and the last item. -/
theorem exists_append_of_getElem? {items : List Value} {n : Nat} (hlength : items.length = n + 1)
    (hx : items[n]? = some x) : ∃ before, before.length = n ∧ items = before ++ [x] := by
  refine ⟨items.take n, by rw [List.length_take]; omega, ?_⟩
  calc items = items.take (n + 1) := (List.take_of_length_le (Nat.le_of_eq hlength)).symm
    _ = items.take n ++ items[n]?.toList := List.take_add_one
    _ = items.take n ++ [x] := by rw [hx]; rfl

/-! ### Along a path -/

section

variable {left : Value} {name : String} {fields : Fields Value} {k : UInt64} {items : List Value}

/-- What was taken away from under a key goes back there. -/
theorem setAt_of_removeAt_key (ordered : d.Ordered) (hlast : p.last = .key name)
    (h : d.removeAt p = (.ok (some x), left)) : left.setAt p x = (.ok (), d) := by
  obtain ⟨node, hnode, hchild, -⟩ := removeAt_of_getAt (getAt_of_removeAt h)
  rw [hlast] at hchild
  obtain ⟨fields, rfl, -⟩ := child?_key_eq_some.1 hchild
  have hready : prepare p.last (dropChild p.last (.mapping fields)) =
      (none, dropChild p.last (.mapping fields)) := by
    rw [hlast]
    rfl
  refine setAt_of_removeAt hnode hready ?_ h
  rw [hlast]
  exact setChild_dropChild_key (ordered.get? hnode) hchild

/-- So does the last item of a sequence. -/
theorem setAt_of_removeAt_last (bounded : d.Bounded) (hlast : p.last = .index k)
    (hnode : get? p.steps.dropLast d = some (.sequence items))
    (hlength : items.length = k.toNat + 1) (h : d.removeAt p = (.ok (some x), left)) :
    left.setAt p x = (.ok (), d) := by
  have hk : k.toNat < positionLimit := by
    have hle := (editInvariant_bounded.get? bounded hnode).length_le
    omega
  obtain ⟨node, hparent, hchild, -⟩ := removeAt_of_getAt (getAt_of_removeAt h)
  obtain rfl := Option.some.inj (hparent.symm.trans hnode)
  rw [hlast] at hchild
  obtain ⟨before, hbefore, rfl⟩ := exists_append_of_getElem? hlength hchild
  have hready : prepare p.last (dropChild p.last (.sequence (before ++ [x]))) =
      (none, .sequence (before ++ [.null])) := by
    rw [hlast, dropChild_index_length hbefore]
    exact prepare_index_length hbefore hk
  refine setAt_of_removeAt hnode hready ?_ h
  rw [hlast, setChild_index_length hbefore]

/-- What was put under a new key can be taken away. -/
theorem removeAt_of_setAt_key (hlast : p.last = .key name)
    (hnode : get? p.steps.dropLast d = some (.mapping fields))
    (hnew : Fields.get? name fields = none) (x : Value) :
    ∃ left, d.setAt p x = (.ok (), left) ∧ left.removeAt p = (.ok (some x), d) := by
  have hready : prepare p.last (.mapping fields) = (none, .mapping fields) := by
    rw [hlast]
    rfl
  refine removeAt_of_setAt hnode hready ?_
  rw [hlast]
  exact dropChild_setChild_key hnew

/-- So can what was put at the end of a sequence. -/
theorem removeAt_of_setAt_next (hlast : p.last = .index k)
    (hnode : get? p.steps.dropLast d = some (.sequence items)) (hlength : items.length = k.toNat)
    (hk : k.toNat < positionLimit) (x : Value) :
    ∃ left, d.setAt p x = (.ok (), left) ∧ left.removeAt p = (.ok (some x), d) := by
  have hready : prepare p.last (.sequence items) = (none, .sequence (items ++ [.null])) := by
    rw [hlast]
    exact prepare_index_length hlength hk
  refine removeAt_of_setAt hnode hready ?_
  rw [hlast, setChild_index_length hlength, dropChild_index_length hlength]

end

/-- A removal and a write undo each other. A node that was taken away from under a key, or from the
end of a sequence, is back where it was when it is put there again. A value that is put under a new
key, or at the end of a sequence, can be taken away again, and nothing of it is left. -/
theorem setAt_removeAt_undo {d : Value} (ordered : d.Ordered) (bounded : d.Bounded) (p : Path) :
    (∀ name x left, p.last = .key name → d.removeAt p = (.ok (some x), left) →
      left.setAt p x = (.ok (), d)) ∧
    (∀ k items x left, p.last = .index k → get? p.steps.dropLast d = some (.sequence items) →
      items.length = k.toNat + 1 → d.removeAt p = (.ok (some x), left) →
      left.setAt p x = (.ok (), d)) ∧
    (∀ name fields v, p.last = .key name → get? p.steps.dropLast d = some (.mapping fields) →
      Fields.get? name fields = none →
      ∃ left, d.setAt p v = (.ok (), left) ∧ left.removeAt p = (.ok (some v), d)) ∧
    (∀ k items v, p.last = .index k → get? p.steps.dropLast d = some (.sequence items) →
      items.length = k.toNat → k.toNat < positionLimit →
      ∃ left, d.setAt p v = (.ok (), left) ∧ left.removeAt p = (.ok (some v), d)) := by
  refine ⟨?_, ?_, ?_, ?_⟩
  · exact fun name x left hlast h => setAt_of_removeAt_key ordered hlast h
  · exact fun k items x left hlast hnode hlength h =>
      setAt_of_removeAt_last bounded hlast hnode hlength h
  · exact fun name fields v hlast hnode hnew => removeAt_of_setAt_key hlast hnode hnew v
  · exact fun k items v hlast hnode hlength hk => removeAt_of_setAt_next hlast hnode hlength hk v

/-- The last item of a sequence taken away and put back, an item added behind it, and a key that
goes in front of the others. -/
theorem setAt_removeAt_undo_last :
    let d : Value := .mapping [("m", .sequence [.int 1, .int 2])]
    let left : Value := .mapping [("m", .sequence [.int 1])]
    let last : Path := ⟨[.key "m", .index 1], List.cons_ne_nil _ _⟩
    let next : Path := ⟨[.key "m", .index 2], List.cons_ne_nil _ _⟩
    let front : Path := ⟨[.key "a"], List.cons_ne_nil _ _⟩
    (d.Ordered ∧ d.Bounded ∧ d.removeAt last = (.ok (some (.int 2)), left)) ∧
      left.setAt last (.int 2) = (.ok (), d) ∧
      (∃ more, d.setAt next .null = (.ok (), more) ∧
        more.removeAt next = (.ok (some .null), d)) ∧
      ∃ more, d.setAt front (.text "x") = (.ok (), more) ∧
        more.removeAt front = (.ok (some (.text "x")), d) := by
  intro d left last next front
  have hitems : ∀ item ∈ [int 1, int 2], item.isContainer = false := by decide
  have hordered : d.Ordered := .mapping (List.pairwise_singleton _ _) fun entry mem => by
    rw [List.mem_singleton.1 mem]
    exact .sequence fun item mem => .scalar (hitems item mem)
  have hbounded : d.Bounded := .mapping fun entry mem => by
    rw [List.mem_singleton.1 mem]
    exact .sequence (by decide) fun item mem => .scalar (hitems item mem)
  have hremove : d.removeAt last = (.ok (some (.int 2)), left) := rfl
  refine ⟨⟨hordered, hbounded, hremove⟩, ?_, ?_, ?_⟩
  · exact (setAt_removeAt_undo hordered hbounded last).2.1 1 [.int 1, .int 2] (.int 2) left rfl rfl
      rfl hremove
  · exact (setAt_removeAt_undo hordered hbounded next).2.2.2 2 [.int 1, .int 2] .null rfl rfl rfl
      (by decide)
  · exact (setAt_removeAt_undo hordered hbounded front).2.2.1 "a" _ (.text "x") rfl rfl rfl

end Value

end DocPath
