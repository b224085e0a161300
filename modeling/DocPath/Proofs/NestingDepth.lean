import DocPath.Proofs.Presented
import DocPath.Proofs.Removal

/-!
# How deep documents are nested

A document that is read is nested no deeper than reading goes, whatever its aliases stand for. One
step down a level is used up, and a node that is put where another one was needs no more levels than
that. So a removal, which puts a parent with a child less in its place, nests nothing deeper.
-/

namespace DocPath

namespace Value

variable {step : Step} {depth : Nat} {v node old child : Value}

theorem within_of_isContainer_false (h : v.isContainer = false) (depth : Nat) :
    v.Within depth := by
  cases v with
  | sequence items => cases h
  | mapping fields => cases h
  | _ => cases depth <;> trivial

/-- A level is used up on the way to a child, and a node of so many levels may be put in its place.
-/
theorem Within.child? (h : v.Within depth) (hc : child? step v = some child) :
    ∃ below, depth = below + 1 ∧ child.Within below ∧
      ∀ node, node.Within below → (setChild node step v).Within depth := by
  cases step with
  | key name =>
    obtain ⟨fields, rfl, hget⟩ := child?_key_eq_some.1 hc
    cases depth with
    | zero => cases h
    | succ below =>
      refine ⟨below, rfl, h _ (Fields.mem_of_get? hget), fun node hnode entry mem => ?_⟩
      rcases Fields.mem_insert mem with rfl | mem
      · exact hnode
      · exact h entry mem
  | index i =>
    obtain ⟨items, rfl, hget⟩ := child?_index_eq_some.1 hc
    cases depth with
    | zero => cases h
    | succ below =>
      refine ⟨below, rfl, h child (List.mem_of_getElem? hget), fun node hnode item mem => ?_⟩
      rcases List.mem_or_eq_of_mem_set mem with mem | rfl
      · exact h item mem
      · exact hnode

theorem Within.dropChild (h : v.Within depth) (step : Step) : (dropChild step v).Within depth := by
  cases step with
  | key name => cases v with
    | mapping fields => cases depth with
      | zero => cases h
      | succ below => exact fun entry mem => h entry (List.mem_filter.1 mem).1
    | _ => exact h
  | index i => cases v with
    | sequence items => cases depth with
      | zero => cases h
      | succ below => exact fun item mem => h item (List.mem_of_mem_eraseIdx mem)
    | _ => exact h

/-- A node that needs no more levels than the one that was there. -/
theorem Within.put {p : List Step} (h : v.Within depth) (hget : get? p v = some old)
    (hnode : ∀ levels, old.Within levels → node.Within levels) : (put node p v).Within depth := by
  induction p generalizing v depth with
  | nil =>
    cases hget
    exact hnode depth h
  | cons step rest ih =>
    obtain ⟨child, hc, hrest⟩ := get?_cons_eq_some.1 hget
    obtain ⟨below, rfl, hchild, hset⟩ := h.child? hc
    rw [Value.put, slot_of_child? hc]
    exact hset _ (ih hchild hrest)

theorem Within.removeAt (h : v.Within depth) (p : Path) : (v.removeAt p).2.Within depth := by
  cases hget : v.getAt p with
  | some x =>
    obtain ⟨node, hnode, -, hremove⟩ := removeAt_of_getAt hget
    rw [hremove]
    exact h.put hnode fun levels hlevels => hlevels.dropChild p.last
  | none =>
    obtain ⟨i, step, node, -, -, -, hremove⟩ := removeAt_of_getAt_none hget
    rw [hremove]
    exact h

theorem Within.remove (h : v.Within depth) (address : Address) :
    (v.remove address).2.Within depth := by
  rw [Value.remove]
  cases address.resolve with
  | ok p => exact h.removeAt p
  | error error => exact h

end Value

/-- A document that was read is nested no deeper than reading goes. -/
theorem Value.within_of_ofYamlBytes {bytes : ByteArray} {v : Value}
    (h : Value.ofYamlBytes bytes = .ok v) : v.Within Yaml.nestingLimit := by
  obtain ⟨text, -, htext⟩ := ofYamlBytes_eq_ok.1 h
  exact Yaml.Document.of_toValue (P := Within)
    (fun depth v hscalar => within_of_isContainer_false hscalar depth)
    (fun depth items hitems => hitems)
    (fun depth pairs hpairs entry mem => hpairs entry (Fields.mem_of_mem_ofList mem)) htext

end DocPath
