import DocPath.Document.Access

/-!
# Documents in order

A mapping is held as a list, and lists can have keys twice or in any order. In a document they do
not: every mapping in it, at every depth, has its keys ascending. Documents that are read from text
are like that, and merging keeps it.
-/

namespace DocPath

namespace Value

/-- Every mapping in a value has its keys ascending. -/
inductive Ordered : Value → Prop where
  | scalar {v : Value} (h : v.isContainer = false) : Ordered v
  | sequence {items : List Value} (items_ordered : ∀ v ∈ items, Ordered v) :
    Ordered (.sequence items)
  | mapping {fields : Fields Value} (ordered : Fields.Ordered fields)
    (values_ordered : ∀ entry ∈ fields, Ordered entry.2) : Ordered (.mapping fields)

theorem Ordered.fields {fields : Fields Value} (h : Ordered (.mapping fields)) :
    Fields.Ordered fields := by
  cases h with
  | scalar h => cases h
  | mapping ordered _ => exact ordered

theorem Ordered.of_mem {fields : Fields Value} (h : Ordered (.mapping fields))
    {entry : String × Value} (mem : entry ∈ fields) : Ordered entry.2 := by
  cases h with
  | scalar h => cases h
  | mapping _ values_ordered => exact values_ordered entry mem

theorem Ordered.of_mem_items {items : List Value} (h : Ordered (.sequence items)) {v : Value}
    (mem : v ∈ items) : Ordered v := by
  cases h with
  | scalar h => cases h
  | sequence items_ordered => exact items_ordered v mem

/-- What lies under a key of a document in order is in order. -/
theorem Ordered.of_get? {fields : Fields Value} (h : Ordered (.mapping fields)) {key : String}
    {v : Value} (hv : Fields.get? key fields = some v) : Ordered v :=
  h.of_mem (Fields.mem_of_get? hv)

/-- Fields made from any entries are in order if the values are. -/
theorem ordered_mapping_ofList {entries : List (String × Value)}
    (h : ∀ entry ∈ entries, Ordered entry.2) : Ordered (.mapping (Fields.ofList entries)) :=
  .mapping (Fields.ordered_ofList entries) fun entry mem => h entry (Fields.mem_of_mem_ofList mem)

/-- Putting something in order under a key keeps the order. -/
theorem Ordered.insert {fields : Fields Value} (h : Ordered (.mapping fields)) (key : String)
    {v : Value} (hv : Ordered v) : Ordered (.mapping (Fields.insert key v fields)) := by
  refine .mapping (h.fields.insert key v) fun entry mem => ?_
  rcases Fields.mem_insert mem with rfl | mem
  · exact hv
  · exact h.of_mem mem

end Value

end DocPath
