import DocPath.Document.Ordered
import DocPath.Proofs.Outcome
import DocPath.Yaml.Decode

/-!
# Documents read from YAML are in order

What holds of every scalar, and of a collection if it holds of what is in it one level further down,
holds of each document that is read (`Document.of_toValue`). So documents are in order: whatever
order a text has its keys in, and however often, the mappings that it is read into are made by
putting in one entry after the other.
-/

namespace DocPath

namespace Yaml

theorem Meaning.isContainer_of_toValue {text : String} {m : Meaning} {v : Value}
    (h : m.toValue text = .ok v) : v.isContainer = false := by
  cases m with
  | integer n =>
    cases h
    split
    · rw [Value.ofUInt64]
      split <;> rfl
    · rfl
  | wide => cases h
  | _ =>
    cases h
    rfl

section

variable {P : Nat → Value → Prop} (scalar : ∀ depth v, v.isContainer = false → P depth v)
  (sequence : ∀ depth items, (∀ v ∈ items, P depth v) → P (depth + 1) (.sequence items))
  (mapping : ∀ depth (pairs : List (String × Value)), (∀ entry ∈ pairs, P depth entry.2) →
    P (depth + 1) (.mapping (Fields.ofList pairs)))

include scalar

theorem Node.gives_scalarValue (properties : Properties) (plain : Bool) (text : String)
    (depth : Nat) : Gives (liftM (scalarValue properties plain text) : Walk Value) (P depth) := by
  refine gives_lift fun v h => ?_
  obtain ⟨m, -, hv⟩ := bind_eq_ok.1 h
  exact scalar depth v (Meaning.isContainer_of_toValue hv)

include sequence mapping

/-- The value of a node has what comes from its scalars through its collections. -/
theorem Node.gives_toValue (anchors : Anchors) (depth : Nat) (node : Node) :
    Gives (toValue anchors depth node) (P depth) := by
  induction depth generalizing node with
  | zero =>
    rw [toValue]
    refine gives_bind fun node => ?_
    cases node with
    | scalar properties plain text => exact gives_scalarValue scalar properties plain text 0
    | _ => exact gives_throw _
  | succ depth ih =>
    rw [toValue]
    refine gives_bind fun node => ?_
    cases node with
    | scalar properties plain text => exact gives_scalarValue scalar properties plain text _
    | sequence properties items =>
      exact (gives_mapM fun item _ => ih item).bind fun values h =>
        gives_pure (sequence depth values h)
    | mapping properties entries =>
      have hpairs := gives_mapM (P := fun pair : String × Value => P depth pair.2)
        (f := toEntry anchors depth) fun entry (_ : entry ∈ entries) =>
          gives_bind fun name => (ih entry.2).bind fun value h => gives_pure h
      exact hpairs.bind fun pairs h => gives_pure (mapping depth pairs h)
    | _ => exact gives_throw _

/-- So has the value of a document; one that is empty is null. -/
theorem Document.of_toValue {document : Document} {v : Value} (h : document.toValue = .ok v) :
    P nestingLimit v := by
  cases hroot : document.root with
  | none =>
    rw [Document.toValue, hroot, Document.finish_eq_ok] at h
    obtain ⟨-, left, hrun⟩ := h
    cases hrun
    exact scalar nestingLimit .null rfl
  | some root =>
    rw [Document.toValue_of_root hroot, Document.finish_eq_ok] at h
    obtain ⟨-, left, hrun⟩ := h
    exact Node.gives_toValue scalar sequence mapping _ _ root _ _ _ hrun

end

end Yaml

/-- Documents that are read from text are in order. -/
theorem Value.ordered_of_ofYamlText {input : String} {v : Value}
    (h : Value.ofYamlText input = .ok v) : v.Ordered :=
  Yaml.Document.of_toValue (P := fun _ => Value.Ordered) (fun _ _ => .scalar)
    (fun _ _ => .sequence) (fun _ _ => Value.ordered_mapping_ofList) h

end DocPath
