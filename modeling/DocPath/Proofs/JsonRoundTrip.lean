import DocPath.Proofs.JsonLexing
import DocPath.Proofs.JsonTokens

/-!
# Documents that are written as JSON and read again

The text is cut into the tokens again, the tokens make the node again, and the node is that of the
document: integers are kept by their sign and are the same afterwards, and the keys of an object are
already in the order in which the reader puts them. The reader refuses what is nested too deep, and
a binary64 need not come back from its digits, so both are hypotheses.
-/

namespace DocPath

open Json (Token Lexable)

/-! ### The node of a document -/

/-- An integer is kept by its sign, and is the same integer again. -/
theorem Json.Atom.toValue_ofInt64 (n : Int64) : (ofInt64 n).toValue = .int n := by
  rw [ofInt64]
  by_cases hneg : n < 0
  · rw [if_pos hneg]
    rfl
  · have hle : 0 ≤ n := Int64.not_lt.1 hneg
    have hsize : (n.toUInt64.toNat : Int) = n.toInt := by
      rw [Int64.toNat_toUInt64_of_le hle]
      exact Int.toNat_of_nonneg (Int64.le_iff_toInt_le.1 hle)
    rw [if_neg hneg]
    exact Value.ofUInt64_eq_int hsize

theorem Json.toItems_eq_map (items : List Json) : toItems items = items.map toValue := by
  induction items with
  | nil => rfl
  | cons item rest ih => rw [toItems, ih, List.map_cons]

theorem Json.toFields_eq_map (fields : Fields Json) :
    toFields fields = fields.map fun entry => (entry.1, entry.2.toValue) := by
  induction fields with
  | nil => rfl
  | cons entry rest ih => rw [toFields, ih, List.map_cons]

namespace Value

/-- There is no binary64 in a document. -/
inductive FloatFree : Value → Prop where
  | scalar {v : Value} (h : v.isContainer = false) (not_float : ∀ x, v ≠ .float x) : FloatFree v
  | sequence {items : List Value} (h : ∀ item ∈ items, FloatFree item) :
    FloatFree (.sequence items)
  | mapping {fields : Fields Value} (h : ∀ entry ∈ fields, FloatFree entry.2) :
    FloatFree (.mapping fields)

variable {v : Value}

/-- A document is that of its node. -/
theorem toValue_toJson (h : v.FloatFree) : v.toJson.toValue = v := by
  induction h with
  | @scalar v h not_float => cases v with
    | int n => exact Json.Atom.toValue_ofInt64 n
    | float x => exact absurd rfl (not_float x)
    | sequence items => cases h
    | mapping fields => cases h
    | _ => rfl
  | @sequence items _ ih =>
    have hitems : items.map (Json.toValue ∘ toJson) = items :=
      (List.map_congr_left ih).trans (List.map_id items)
    rw [toJson, Json.toValue, itemsToJson_eq_map, Json.toItems_eq_map, List.map_map, hitems]
  | @mapping fields _ ih =>
    have hentry : ∀ entry ∈ fields, (entry.1, entry.2.toJson.toValue) = id entry :=
      fun entry mem => Prod.ext rfl (ih entry mem)
    have hfields : (fields.map fun entry => (entry.1, entry.2.toJson.toValue)) = fields :=
      (List.map_congr_left hentry).trans (List.map_id fields)
    rw [toJson, Json.toValue, fieldsToJson_eq_map, Json.toFields_eq_map, List.map_map]
    exact congrArg mapping hfields

end Value

/-! ### The tokens of a document -/

/-- A part of a row that can be read again where no atom follows it. -/
def Json.Legible (part : List Token) : Prop :=
  ∀ rest : List Token, (∀ next ∈ rest.head?, next.isAtom = false) → Lexable rest →
    Lexable (part ++ rest)

namespace Json.Legible

variable {part : List Token} {parts : List (List Token)}

theorem nil : Legible [] := fun _ _ hrest => hrest

theorem sign {token : Token} (h : token.isAtom = false) (hpart : Legible part) :
    Legible (token :: part) := by
  have hreadable : token.Readable := by cases token <;> first | exact trivial | cases h
  have hsign : ¬token.isAtom = true := by simp [h]
  exact fun rest apart hrest =>
    .cons hreadable (fun hatom => absurd hatom hsign) (hpart rest apart hrest)

theorem atom {a : Atom} (h : a.Readable) : Legible [.atom a] :=
  fun _ apart hrest => .cons h (fun _ => apart) hrest

/-- A part, and others that begin with a sign. -/
theorem append_sign {token : Token} {more : List Token} (hpart : Legible part)
    (h : token.isAtom = false) (hmore : Legible more) : Legible (part ++ token :: more) := by
  intro rest apart hrest
  rw [List.append_assoc]
  refine hpart _ ?_ (hmore.sign h rest apart hrest)
  rintro _ ⟨⟩
  exact h

theorem container {opening closing : Token} (opens : opening.isAtom = false)
    (closes : closing.isAtom = false) (h : ∀ part ∈ parts, Legible part) :
    Legible (opening :: separate parts ++ [closing]) := by
  have hparts : Legible (separate parts) :=
    separate_of_parts nil (fun _ _ hpart hmore => hpart.append_sign rfl hmore) h
  exact (hparts.sign opens).append_sign closes nil

end Json.Legible

namespace Value

variable {v : Value}

theorem readable_ofInt64 (n : Int64) : (Json.Atom.ofInt64 n).Readable := by
  rw [Json.Atom.ofInt64]
  by_cases hneg : n < 0
  · rw [if_pos hneg]
    exact hneg
  · rw [if_neg hneg]
    trivial

/-- The tokens of a document can be read again from their text. -/
theorem legible_jsonTokens (h : v.FloatFree) : Json.Legible v.jsonTokens := by
  induction h with
  | @scalar v h not_float => cases v with
    | int n => exact .atom (readable_ofInt64 n)
    | float x => exact absurd rfl (not_float x)
    | sequence items => cases h
    | mapping fields => cases h
    | _ => exact .atom trivial
  | @sequence items _ ih =>
    have hitems : ∀ part ∈ items.map jsonTokens, Json.Legible part := by
      intro part mem
      obtain ⟨item, hitem, rfl⟩ := List.mem_map.1 mem
      exact ih item hitem
    rw [jsonTokens, itemsToTokens_eq_map]
    exact .container rfl rfl hitems
  | @mapping fields _ ih =>
    have hentries : ∀ part ∈ fields.map entryTokens, Json.Legible part := by
      intro part mem
      obtain ⟨entry, hentry, rfl⟩ := List.mem_map.1 mem
      have hkey : Json.Legible [.atom (.text entry.1)] := .atom trivial
      exact hkey.append_sign rfl (ih entry hentry)
    rw [jsonTokens, fieldsToTokens_eq_map]
    exact .container rfl rfl hentries

/-! ### Reading what was written -/

/-- A document is read again from its text in any layout of blanks. -/
theorem ofJsonText?_write {layout : Json.Layout} (blank : layout.IsBlank) (ordered : v.Ordered)
    (float_free : v.FloatFree) (within : v.Within Json.nestingLimit) :
    ofJsonText? (Json.write layout v.jsonTokens) = some v := by
  have hlexable : Lexable v.jsonTokens := by
    have hrow := legible_jsonTokens float_free [] (by rintro next ⟨⟩) .nil
    rwa [List.append_nil] at hrow
  have hnesting : Json.nesting 0 v.jsonTokens ≤ Json.nestingLimit := by
    have hrow := fits_jsonTokens within (Nat.le_of_eq (Nat.zero_add _)) [] (Nat.zero_le _)
    rwa [List.append_nil] at hrow
  rw [ofJsonText?, Json.parse?, Json.lex_write blank hlexable, Option.bind_eq_bind,
    Option.bind_some, if_pos hnesting, ofTokens?_jsonTokens ordered, Option.map_some,
    toValue_toJson float_free]

/-- A document that is written as JSON, on one line or over several, is read as itself. -/
theorem ofJsonText?_toJsonText (ordered : v.Ordered) (float_free : v.FloatFree)
    (within : v.Within Json.nestingLimit) :
    ofJsonText? v.toJsonText = some v ∧ ofJsonText? v.toPrettyJsonText = some v :=
  ⟨ofJsonText?_write Json.compact_isBlank ordered float_free within,
    ofJsonText?_write Json.pretty_isBlank ordered float_free within⟩

/-- The least integer next to the greatest, characters that have to be escaped, one that takes a
surrogate pair elsewhere, an empty key and empty containers. -/
theorem ofJsonText?_toJsonText_escaped :
    let v : Value := .mapping [("", .sequence []), ("\x00\"\\", .mapping []),
      ("n", .sequence [.int Int64.minValue, .int Int64.maxValue, .int 0]), ("😀", .text "\t\x1f/é")]
    (v.Ordered ∧ v.FloatFree ∧ v.Within Json.nestingLimit) ∧
    v.toJsonText = "\x7b\"\":[],\"\\u0000\\\"\\\\\":\x7b\x7d,\"n\":[-9223372036854775808," ++
      "9223372036854775807,0],\"😀\":\"\\t\\u001f/é\"\x7d" ∧
    ofJsonText? v.toJsonText = some v ∧ ofJsonText? v.toPrettyJsonText = some v := by
  intro v
  have ordered : v.Ordered := by
    refine .mapping ?_ fun entry mem => ?_
    · dsimp only [Fields.Ordered]
      decide
    simp only [List.mem_cons, List.not_mem_nil, or_false] at mem
    rcases mem with rfl | rfl | rfl | rfl
    · exact .sequence fun _ mem => absurd mem List.not_mem_nil
    · exact .mapping List.Pairwise.nil fun _ mem => absurd mem List.not_mem_nil
    · exact .sequence (by simp [Ordered.scalar, isContainer, isMapping, isSequence, kind])
    · exact .scalar rfl
  have float_free : v.FloatFree := by
    refine .mapping fun entry mem => ?_
    simp only [List.mem_cons, List.not_mem_nil, or_false] at mem
    rcases mem with rfl | rfl | rfl | rfl
    · exact .sequence fun _ mem => absurd mem List.not_mem_nil
    · exact .mapping fun _ mem => absurd mem List.not_mem_nil
    · exact .sequence (by simp [FloatFree.scalar, isContainer, isMapping, isSequence, kind])
    · exact .scalar rfl fun x h => by cases h
  have within : v.Within Json.nestingLimit := by
    simp [v, Within, Json.nestingLimit]
  exact ⟨⟨ordered, float_free, within⟩, by decide, ofJsonText?_toJsonText ordered float_free within⟩

end Value

end DocPath
