import DocPath.Cli.Run
import DocPath.Json.Typed
import DocPath.Proofs.JsonRoundTrip

/-!
# The ways from a document to JSON

A document can be made into a node by structure, or written into tokens that are then put together
into a node or spelled as text; and a node can be converted to a document or read as one. Here all
of these are brought together: the tokens of the node are those of the document, the node that they
make is the same one, and both ways back end in the document with null in place of every number that
has no JSON form. Objects are put together entry by entry, so the keys of mappings have to be in
order.
-/

namespace DocPath

namespace Json.Atom

/-- Reading an atom and converting it come to the same, also for naturals beyond 63 bits. -/
theorem ofAtom_eq_toValue (a : Atom) : Value.ofAtom a = a.toValue := by
  cases a with
  | natural n =>
    rw [Value.ofAtom, toInt64?, toValue, Value.ofUInt64]
    by_cases hsmall : n.toNat < Nat.pow 2 63
    · rw [if_pos hsmall, if_pos hsmall]
    · rw [if_neg hsmall, if_neg hsmall]
      rfl
  | _ => rfl

/-- A number that is finite is read as itself, any other as null. -/
theorem toValue_ofBinary64 (x : Binary64) :
    (ofBinary64 x).toValue = if x.isFinite then .float x else .null := by
  rw [ofBinary64]
  cases x.isFinite <;> rfl

end Json.Atom

namespace Value

/-! ### What is left of a document -/

mutual

/-- The document with null in place of every number that is not finite. -/
def onlyFinite : Value → Value
  | .null => .null
  | .bool b => .bool b
  | .int n => .int n
  | .float x => if x.isFinite then .float x else .null
  | .text s => .text s
  | .sequence items => .sequence (itemsOnlyFinite items)
  | .mapping fields => .mapping (fieldsOnlyFinite fields)

/-- A list of documents, each with null in place of every number that is not finite. -/
def itemsOnlyFinite : List Value → List Value
  | [] => []
  | item :: rest => onlyFinite item :: itemsOnlyFinite rest

/-- The entries of a mapping, with null in place of every number that is not finite. -/
def fieldsOnlyFinite : List (String × Value) → List (String × Value)
  | [] => []
  | (key, item) :: rest => (key, onlyFinite item) :: fieldsOnlyFinite rest

end

/-! ### The tokens and the node -/

mutual

/-- The tokens of the node of a document are those of the document. -/
theorem tokens_toJson : ∀ v : Value, v.toJson.tokens = v.jsonTokens
  | .null | .bool _ | .int _ | .float _ | .text _ => rfl
  | .sequence items => by rw [toJson, Json.tokens, jsonTokens, itemTokens_itemsToJson items]
  | .mapping fields => by rw [toJson, Json.tokens, jsonTokens, fieldTokens_fieldsToJson fields]

theorem itemTokens_itemsToJson :
    ∀ items : List Value, Json.itemTokens (itemsToJson items) = itemsToTokens items
  | [] => rfl
  | item :: rest => by
    rw [itemsToJson, Json.itemTokens, itemsToTokens, tokens_toJson item,
      itemTokens_itemsToJson rest]

theorem fieldTokens_fieldsToJson :
    ∀ fields : List (String × Value), Json.fieldTokens (fieldsToJson fields) = fieldsToTokens fields
  | [] => rfl
  | (key, item) :: rest => by
    rw [fieldsToJson, Json.fieldTokens, fieldsToTokens, tokens_toJson item,
      fieldTokens_fieldsToJson rest]

end

/-! ### The ways back -/

mutual

/-- The node of a document is read as what has a JSON form of it. -/
theorem toValue_toJson_onlyFinite : ∀ v : Value, v.toJson.toValue = v.onlyFinite
  | .null | .bool _ | .text _ => rfl
  | .int n => Json.Atom.toValue_ofInt64 n
  | .float x => Json.Atom.toValue_ofBinary64 x
  | .sequence items => by rw [toJson, Json.toValue, onlyFinite, toItems_itemsToJson items]
  | .mapping fields => by rw [toJson, Json.toValue, onlyFinite, toFields_fieldsToJson fields]

theorem toItems_itemsToJson :
    ∀ items : List Value, Json.toItems (itemsToJson items) = itemsOnlyFinite items
  | [] => rfl
  | item :: rest => by
    rw [itemsToJson, Json.toItems, itemsOnlyFinite, toValue_toJson_onlyFinite item,
      toItems_itemsToJson rest]

theorem toFields_fieldsToJson :
    ∀ fields : List (String × Value), Json.toFields (fieldsToJson fields) = fieldsOnlyFinite fields
  | [] => rfl
  | (key, item) :: rest => by
    rw [fieldsToJson, Json.toFields, fieldsOnlyFinite, toValue_toJson_onlyFinite item,
      toFields_fieldsToJson rest]

end

theorem itemsOfJson_eq_map (items : List Json) : itemsOfJson items = items.map ofJson := by
  induction items with
  | nil => rfl
  | cons item rest ih => rw [itemsOfJson, ih, List.map_cons]

theorem fieldsOfJson_eq_map (fields : Fields Json) :
    fieldsOfJson fields = fields.map fun entry => (entry.1, ofJson entry.2) := by
  induction fields with
  | nil => rfl
  | cons entry rest ih => rw [fieldsOfJson, ih, List.map_cons]

/-- Converting the node of a document comes to the same as reading it. -/
theorem ofJson_toJson {v : Value} (ordered : v.Ordered) : ofJson v.toJson = v.toJson.toValue := by
  induction ordered with
  | @scalar v h => cases v with
    | sequence items => cases h
    | mapping fields => cases h
    | _ => rw [toJson, ofJson, Json.toValue, Json.Atom.ofAtom_eq_toValue]
  | @sequence items _ ih =>
    rw [toJson, ofJson, Json.toValue, itemsToJson_eq_map, itemsOfJson_eq_map, Json.toItems_eq_map,
      List.map_map, List.map_map]
    exact congrArg sequence (List.map_congr_left ih)
  | @mapping fields ordered _ ih =>
    have hfields : fieldsOfJson (fieldsToJson fields) = Json.toFields (fieldsToJson fields) := by
      rw [fieldsToJson_eq_map, fieldsOfJson_eq_map, Json.toFields_eq_map, List.map_map,
        List.map_map]
      exact List.map_congr_left fun entry mem => Prod.ext rfl (ih entry mem)
    have hkeys : Fields.Ordered (Json.toFields (fieldsToJson fields)) := by
      rw [fieldsToJson_eq_map, Json.toFields_eq_map, List.map_map]
      exact List.pairwise_map.2 ordered
    rw [toJson, ofJson, Json.toValue, hfields, Fields.ofList_of_ordered hkeys]

/-- All ways from a document in order to JSON agree: the node that it is made into, the node that
its tokens make, and the texts of both. Whether that node is converted or read as a document, and
whether the document is taken for a typed value or a typed value for a document, what comes out is
the document with null for each number that is not finite. -/
theorem json_routes_agree {v : Value} (ordered : v.Ordered) :
    ofJson v.toJson = v.onlyFinite ∧
    Json.ofTokens? v.jsonTokens = some v.toJson ∧
    encode? v = some v.onlyFinite ∧
    (decode? v : Option Value) = some v.onlyFinite ∧
    v.toJson.compact = v.toJsonText ∧
    v.toJson.pretty = v.toPrettyJsonText ∧
    Cli.Format.json.render v = v.toPrettyJsonText ++ "\n" := by
  have hconverted : ofJson v.toJson = v.onlyFinite :=
    (ofJson_toJson ordered).trans v.toValue_toJson_onlyFinite
  have hnode : Json.ofTokens? v.jsonTokens = some v.toJson := ofTokens?_jsonTokens ordered
  have hencode : encode? v = some v.onlyFinite := by
    change (Json.ofTokens? v.jsonTokens).map ofJson = some v.onlyFinite
    rw [hnode, Option.map_some, hconverted]
  have hdecode : (decode? v : Option Value) = some v.onlyFinite :=
    congrArg some v.toValue_toJson_onlyFinite
  have hpretty : v.toJson.pretty = v.toPrettyJsonText :=
    congrArg (Json.write .pretty) v.tokens_toJson
  exact ⟨hconverted, hnode, hencode, hdecode, congrArg (Json.write .compact) v.tokens_toJson,
    hpretty, congrArg (· ++ "\n") hpretty⟩

/-- Infinity and a NaN at two depths, beside an integer below zero, the greatest one, and a whole
number that is held as a binary64. -/
theorem json_routes_agree_not_finite :
    let v : Value := .mapping [("a", .sequence [.float .nan, .int (-1), .int Int64.maxValue]),
      ("b", .float (.infinity true)), ("c", .float ⟨0x4008000000000000⟩)]
    let left : Value := .mapping [("a", .sequence [.null, .int (-1), .int Int64.maxValue]),
      ("b", .null), ("c", .float ⟨0x4008000000000000⟩)]
    v.Ordered ∧ v.onlyFinite = left ∧ ofJson v.toJson = left ∧
    Json.ofTokens? v.jsonTokens = some v.toJson ∧
    encode? v = some left ∧ (decode? v : Option Value) = some left ∧
    v.toJson.compact = v.toJsonText ∧ v.toJson.pretty = v.toPrettyJsonText ∧
    Cli.Format.json.render v = v.toPrettyJsonText ++ "\n" := by
  intro v left
  have ordered : v.Ordered := by
    refine .mapping ?_ fun entry mem => ?_
    · dsimp only [Fields.Ordered]
      decide
    simp only [List.mem_cons, List.not_mem_nil, or_false] at mem
    rcases mem with rfl | rfl | rfl
    · exact .sequence (by simp [Ordered.scalar, isContainer, isMapping, isSequence, kind])
    · exact .scalar rfl
    · exact .scalar rfl
  have hleft : v.onlyFinite = left := rfl
  exact ⟨ordered, hleft, hleft ▸ json_routes_agree ordered⟩

end Value

end DocPath
