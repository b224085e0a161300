import DocPath.Proofs.LeafWrites
import DocPath.Proofs.Write
import Mathlib

/-!
# Independent writes

Two paths that part at two keys, or at two positions, can be written in either order. Up to where
they part both writes make the same nodes ready. There a node is made ready for two steps of one
kind: both orders lead to the same mapping, or to the same items filled up with nulls to the
further position, and neither write changes what the other one finds in its slot.

Where one path goes on by key and the other by position the second write replaces what the first
one made, or is refused.
-/

namespace DocPath

/-- Two paths part at a step where both go on by key, or both by position. -/
def Path.PartsAlike (p q : Path) : Prop :=
  ∃ common s t pr qr, p.steps = common ++ s :: pr ∧ q.steps = common ++ t :: qr ∧ s ≠ t ∧
    s.needs = t.needs

theorem Path.PartsAlike.symm {p q : Path} (h : p.PartsAlike q) : q.PartsAlike p := by
  obtain ⟨common, s, t, pr, qr, hp, hq, hst, hneeds⟩ := h
  exact ⟨common, t, s, qr, pr, hq, hp, hst.symm, hneeds.symm⟩

namespace Value

variable {s t step : Step} {v ws wt : Value}

/-! ### One node, made ready for two steps -/

theorem setChild_comm (hst : s ≠ t) (first second v : Value) :
    setChild first s (setChild second t v) = setChild second t (setChild first s v) := by
  cases s with
  | key name => cases t with
    | key other => cases v with
      | mapping fields =>
        have hne : name ≠ other := fun e => hst (congrArg _ e)
        exact congrArg mapping (Fields.insert_comm hne first second fields)
      | _ => rfl
    | index j => cases v <;> rfl
  | index i => cases t with
    | key other => cases v <;> rfl
    | index j => cases v with
      | sequence items =>
        have hne : j.toNat ≠ i.toNat := fun e => hst (congrArg _ (UInt64.toNat_inj.1 e.symm))
        exact congrArg sequence (List.set_comm second first hne)
      | _ => rfl

/-- Filling up to two positions is filling up to the further one. -/
theorem padTo_comm (i j : Nat) (items : List Value) :
    padTo i (padTo j items) = padTo j (padTo i items) := by
  refine List.ext_getElem? fun n => ?_
  simp only [getElem?_padTo, length_padTo]
  grind

theorem set_padTo {i : Nat} {items : List Value} (h : i < items.length) (j : Nat) (child : Value) :
    (padTo j items).set i child = padTo j (items.set i child) := by
  rw [padTo, padTo, List.set_append_left _ _ h, List.length_set]

/-- A sequence that was filled up to one position, and holds something there, is filled up to
another one if it could be before. -/
theorem prepare_index_setChild {i j : UInt64} {items : List Value}
    (h : ¬(items.length ≤ j.toNat ∧ positionLimit ≤ j.toNat)) (child : Value) :
    prepare (.index j) (setChild child (.index i) (.sequence (padTo i.toNat items))) =
      (none, setChild child (.index i) (.sequence (padTo j.toNat (padTo i.toNat items)))) := by
  have hi := lt_length_padTo i.toNat items
  have hlength := length_padTo i.toNat items
  refine prepare_index_eq_none.2 ⟨(padTo i.toNat items).set i.toNat child, rfl, ?_, ?_⟩
  · rw [List.length_set]
    omega
  · rw [setChild, set_padTo hi]

/-- A node that can be made ready for each of two steps of one kind can be made ready for both, and
it does not matter which of them is written in between. -/
theorem exists_prepare_both (hneeds : s.needs = t.needs) (hs : prepare s v = (none, ws))
    (ht : prepare t v = (none, wt)) : ∃ w,
      (∀ child, prepare t (setChild child s ws) = (none, setChild child s w)) ∧
        ∀ child, prepare s (setChild child t wt) = (none, setChild child t w) := by
  cases s with
  | key name => cases t with
    | key other =>
      cases hs
      cases ht
      exact ⟨.mapping (openFields v), fun child => rfl, fun child => rfl⟩
    | index j => cases hneeds
  | index i => cases t with
    | key other => cases hneeds
    | index j =>
      obtain ⟨items, hv, hi, rfl⟩ := prepare_index_eq_none.1 hs
      obtain ⟨others, hv', hj, rfl⟩ := prepare_index_eq_none.1 ht
      obtain rfl := Option.some.inj (hv.symm.trans hv')
      refine ⟨_, prepare_index_setChild hj, ?_⟩
      rw [padTo_comm]
      exact prepare_index_setChild hi

/-- One of two writes leaves the slot of the other one alone. -/
theorem slot_setChild_of_prepare (hst : s ≠ t) (hneeds : s.needs = t.needs)
    (hs : prepare s v = (none, ws)) (child : Value) : slot t (setChild child s ws) = slot t v := by
  rw [slot, child?_setChild_of_ne hst.symm, ← slot, slot_of_prepare_of_needs hneeds hs]

/-! ### Two writes -/

section

variable {α β : Type} {edit : Value → α × Value} {other : Value → β × Value}

/-- Two writes that part alike, and that each get through, get through one after the other in
either order, with the same answers, and leave the same. -/
theorem zoom_comm (hst : s ≠ t) (hneeds : s.needs = t.needs) {common pr qr : List Step}
    {vp vq : Value} {a : α} {b : β} (hp : zoom edit (common ++ s :: pr) v = (.ok a, vp))
    (hq : zoom other (common ++ t :: qr) v = (.ok b, vq)) :
    ∃ w, zoom other (common ++ t :: qr) vp = (.ok b, w) ∧
      zoom edit (common ++ s :: pr) vq = (.ok a, w) := by
  induction common generalizing v vp vq with
  | nil =>
    rw [List.nil_append] at hp hq
    obtain ⟨ws, cs, hs, hcs, rfl⟩ := zoom_cons_ok edit hp
    obtain ⟨wt, ct, ht, hct, rfl⟩ := zoom_cons_ok other hq
    obtain ⟨w, hsecond, hfirst⟩ := exists_prepare_both hneeds hs ht
    refine ⟨setChild ct t (setChild cs s w), ?_, ?_⟩
    · rw [List.nil_append, zoom_cons_of_prepare other (hsecond cs),
        slot_setChild_of_prepare hst hneeds hs, hct]
      rfl
    · rw [List.nil_append, zoom_cons_of_prepare edit (hfirst ct),
        slot_setChild_of_prepare hst.symm hneeds.symm ht, hcs, setChild_comm hst.symm]
      rfl
  | cons step common ih =>
    obtain ⟨w, cp, hw, hcp, rfl⟩ := zoom_cons_ok edit hp
    obtain ⟨w', cq, hw', hcq, rfl⟩ := zoom_cons_ok other hq
    obtain rfl : w = w' := congrArg Prod.snd (hw.symm.trans hw')
    obtain ⟨child, hother, hedit⟩ := ih hcp hcq
    -- the node is ready by now, so the second write only puts its child in place of the first one
    have hp' := child?_setChild_of_prepare hw cp
    have hq' := child?_setChild_of_prepare hw cq
    refine ⟨setChild child step w, ?_, ?_⟩
    · rw [List.cons_append, zoom_cons_of_prepare other (prepare_of_child? hp'), slot_of_child? hp',
        hother, setChild_setChild]
      rfl
    · rw [List.cons_append, zoom_cons_of_prepare edit (prepare_of_child? hq'), slot_of_child? hq',
        hedit, setChild_setChild]
      rfl

end

variable {d dp dq x y : Value} {p q : Path} {writes others : List (Path × Value)}

theorem setAt_comm (h : p.PartsAlike q) (hp : d.setAt p x = (.ok (), dp))
    (hq : d.setAt q y = (.ok (), dq)) :
    ∃ both, dp.setAt q y = (.ok (), both) ∧ dq.setAt p x = (.ok (), both) := by
  obtain ⟨common, s, t, pr, qr, ep, eq, hst, hneeds⟩ := h
  have hzp := (editAt_eq_ok _).1 hp
  have hzq := (editAt_eq_ok _).1 hq
  rw [ep] at hzp
  rw [eq] at hzq
  obtain ⟨both, hsecond, hfirst⟩ := zoom_comm hst hneeds hzp hzq
  exact ⟨both, (editAt_eq_ok _).2 (eq ▸ hsecond), (editAt_eq_ok _).2 (ep ▸ hfirst)⟩

/-! ### Any number of writes -/

theorem setEach_cons (h : d.setAt p x = (.ok (), dp)) (writes : List (Path × Value)) :
    setEach ((p, x) :: writes) d = setEach writes dp := by
  rw [setEach, h]

/-- Each of some values can be put at its path. -/
def Writable (writes : List (Path × Value)) (d : Value) : Prop :=
  ∀ write ∈ writes, ∃ left, d.setAt write.1 write.2 = (.ok (), left)

/-- What can be written beside a path can still be written when something was put there. -/
theorem Writable.setAt (h : Writable writes d) (hp : d.setAt p x = (.ok (), dp))
    (hparts : ∀ write ∈ writes, p.PartsAlike write.1) : Writable writes dp := by
  intro write mem
  obtain ⟨left, hleft⟩ := h write mem
  obtain ⟨both, hboth, -⟩ := setAt_comm (hparts write mem) hp hleft
  exact ⟨both, hboth⟩

/-- Values that can be put at paths which part alike can be put there one after the other. -/
theorem setEach_of_writable (hparts : writes.Pairwise fun a b => a.1.PartsAlike b.1)
    (h : Writable writes d) : ∃ left, setEach writes d = (.ok (), left) := by
  induction writes generalizing d with
  | nil => exact ⟨d, rfl⟩
  | cons write more ih =>
    obtain ⟨hfirst, hmore⟩ := List.pairwise_cons.1 hparts
    obtain ⟨hwrite, hothers⟩ := List.forall_mem_cons.1 h
    obtain ⟨left, hleft⟩ := hwrite
    rw [setEach_cons hleft]
    exact ih hmore (Writable.setAt hothers hleft hfirst)

/-- It does not matter in which order. -/
theorem setEach_perm (hperm : writes.Perm others)
    (hparts : writes.Pairwise fun a b => a.1.PartsAlike b.1) (h : Writable writes d) :
    setEach writes d = setEach others d := by
  induction hperm generalizing d with
  | nil => rfl
  | cons write _ ih =>
    obtain ⟨hfirst, hmore⟩ := List.pairwise_cons.1 hparts
    obtain ⟨hwrite, hothers⟩ := List.forall_mem_cons.1 h
    obtain ⟨left, hleft⟩ := hwrite
    rw [setEach_cons hleft, setEach_cons hleft]
    exact ih hmore (Writable.setAt hothers hleft hfirst)
  | swap first second more =>
    obtain ⟨hsecond, -⟩ := List.pairwise_cons.1 hparts
    obtain ⟨⟨dq, hq⟩, hothers⟩ := List.forall_mem_cons.1 h
    obtain ⟨⟨dp, hp⟩, -⟩ := List.forall_mem_cons.1 hothers
    obtain ⟨both, hboth, hboth'⟩ := setAt_comm (hsecond first List.mem_cons_self) hq hp
    rw [setEach_cons hq, setEach_cons hboth, setEach_cons hp, setEach_cons hboth']
  | trans hperm _ ih ih' =>
    rw [ih hparts h]
    refine ih' (hperm.pairwise hparts fun hab => hab.symm) fun write mem => ?_
    exact h write (hperm.mem_iff.2 mem)

/-- Two values put at paths that part alike, each of which can be put there alone, can be put there
in either order, and leave the same document. So can any number of them, in any order. -/
theorem setAt_any_order :
    (∀ (d dp dq x y : Value) (p q : Path), p.PartsAlike q → d.setAt p x = (.ok (), dp) →
      d.setAt q y = (.ok (), dq) →
      ∃ both, dp.setAt q y = (.ok (), both) ∧ dq.setAt p x = (.ok (), both)) ∧
    ∀ (d : Value) (writes others : List (Path × Value)), writes.Perm others →
      (writes.Pairwise fun a b => a.1.PartsAlike b.1) → Writable writes d →
      ∃ left, setEach writes d = (.ok (), left) ∧ setEach others d = (.ok (), left) := by
  refine ⟨fun d dp dq x y p q h hp hq => setAt_comm h hp hq, ?_⟩
  intro d writes others hperm hparts h
  obtain ⟨left, hleft⟩ := setEach_of_writable hparts h
  exact ⟨left, hleft, (setEach_perm hperm hparts h) ▸ hleft⟩

/-- Two writes below a text that a key replaces, into one sequence that has to be filled up. -/
theorem setAt_any_order_filled :
    let d : Value := .mapping [("a", .text "old")]
    let p : Path := ⟨[.key "a", .key "b", .index 2, .key "c"], List.cons_ne_nil _ _⟩
    let q : Path := ⟨[.key "a", .key "b", .index 0], List.cons_ne_nil _ _⟩
    let dp : Value := .mapping [("a", .mapping [("b",
      .sequence [.null, .null, .mapping [("c", .int 1)]])])]
    let dq : Value := .mapping [("a", .mapping [("b", .sequence [.int 2])])]
    (p.PartsAlike q ∧ d.setAt p (.int 1) = (.ok (), dp) ∧ d.setAt q (.int 2) = (.ok (), dq)) ∧
      ∃ both, dp.setAt q (.int 2) = (.ok (), both) ∧ dq.setAt p (.int 1) = (.ok (), both) := by
  intro d p q dp dq
  have hparts : p.PartsAlike q :=
    ⟨[.key "a", .key "b"], .index 2, .index 0, [.key "c"], [], rfl, rfl, by decide, rfl⟩
  have hp : d.setAt p (.int 1) = (.ok (), dp) := rfl
  have hq : d.setAt q (.int 2) = (.ok (), dq) := rfl
  exact ⟨⟨hparts, hp, hq⟩, setAt_any_order.1 d dp dq (.int 1) (.int 2) p q hparts hp hq⟩

end Value

end DocPath
