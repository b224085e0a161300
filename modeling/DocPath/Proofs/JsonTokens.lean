import DocPath.Document.Ordered
import DocPath.Json.Value
import DocPath.Proofs.Presented

/-!
# The tokens of a document make its node

The reader of tokens is a machine with a stack of open containers. Started on the tokens of a
document it comes to rest with the node of that document complete, whatever is open around it and
whatever follows (`run_jsonTokens`); the induction is on the document, and inside a container on the
parts that are still to come. An object is built by putting in one entry after the other, so the
keys of a mapping have to be in order for its object to have them in the same one.
-/

namespace DocPath

open Json (Token Frame)

namespace Json

/-- Parts with commas between them: the first one, and each of the others after a comma. -/
theorem separate_cons (part : List Token) (more : List (List Token)) :
    separate (part :: more) = part ++ more.flatMap (Token.comma :: ·) := by
  induction more generalizing part with
  | nil => rw [separate, List.flatMap_nil, List.append_nil]
  | cons next rest ih =>
    rw [separate, ih, List.flatMap_cons]
    · rfl
    · exact List.cons_ne_nil _ _

/-- What holds of parts, and of two with a comma between them if it does of each, holds of any
number of parts with commas between them. -/
theorem separate_of_parts {P : List Token → Prop} (nil : P [])
    (comma : ∀ part more, P part → P more → P (part ++ Token.comma :: more))
    {parts : List (List Token)} (h : ∀ part ∈ parts, P part) : P (separate parts) := by
  induction parts with
  | nil => exact nil
  | cons part more ih =>
    have hpart := h part List.mem_cons_self
    have hmore := ih fun other mem => h other (List.mem_cons_of_mem _ mem)
    cases more with
    | nil => exact hpart
    | cons next rest => exact comma _ _ hpart hmore

/-- A token that moves the machine on, and those after it. -/
theorem State.run_cons {state next : State} {token : Token} (h : step state token = some next)
    (rest : List Token) : run state (token :: rest) = run next rest := by
  rw [run, h]

/-! ### Nesting -/

/-- Tokens are nested at least as deep as they stand. -/
theorem le_nesting (depth : Nat) (row : List Token) : depth ≤ nesting depth row := by
  cases row with
  | nil => exact Nat.le_refl depth
  | cons token rest => exact Nat.le_max_left ..

/-- A part leaves the depth where it was and does not go deeper than `limit`. -/
def Fits (limit depth : Nat) (part : List Token) : Prop :=
  ∀ rest, nesting depth rest ≤ limit → nesting depth (part ++ rest) ≤ limit

namespace Fits

variable {limit depth : Nat} {token : Token} {part : List Token} {parts : List (List Token)}

/-- A token that neither opens nor closes a container. -/
theorem cons (opens : token.opens = false) (closes : token.closes = false)
    (h : Fits limit depth part) : Fits limit depth (token :: part) := by
  intro rest hrest
  have hpart := h rest hrest
  have hdepth := le_nesting depth (part ++ rest)
  rw [List.cons_append, nesting, opens, closes]
  exact Nat.max_le.2 ⟨Nat.le_trans hdepth hpart, hpart⟩

theorem nil : Fits limit depth [] := fun _ hrest => hrest

theorem append {more : List Token} (h : Fits limit depth part) (hmore : Fits limit depth more) :
    Fits limit depth (part ++ more) := by
  intro rest hrest
  rw [List.append_assoc]
  exact h _ (hmore rest hrest)

theorem separate (h : ∀ part ∈ parts, Fits limit depth part) :
    Fits limit depth (Json.separate parts) :=
  separate_of_parts nil (fun _ _ hpart hmore => hpart.append (hmore.cons rfl rfl)) h

/-- A container stands one level above its parts. -/
theorem container {opening closing : Token} (opens : opening.opens = true)
    (closes : closing.closes = true) (hlimit : depth < limit)
    (h : ∀ part ∈ parts, Fits limit (depth + 1) part) :
    Fits limit depth (opening :: Json.separate parts ++ [closing]) := by
  intro rest hrest
  have hclosing : nesting (depth + 1) (closing :: rest) ≤ limit := by
    have hopens : closing.opens = false := by cases closing <;> first | rfl | cases closes
    rw [nesting, closes, hopens]
    exact Nat.max_le.2 ⟨hlimit, hrest⟩
  have hparts := separate h _ hclosing
  rw [List.append_assoc, List.singleton_append, List.cons_append, nesting, opens]
  exact Nat.max_le.2 ⟨Nat.le_of_lt hlimit, hparts⟩

end Fits

end Json

namespace Value

open Json.State

/-! ### Documents by their parts -/

theorem itemsToTokens_eq_map (items : List Value) : itemsToTokens items = items.map jsonTokens := by
  induction items with
  | nil => rfl
  | cons item rest ih => rw [itemsToTokens, ih, List.map_cons]

/-- The tokens of an entry. -/
def entryTokens (entry : String × Value) : List Token :=
  .atom (.text entry.1) :: .colon :: entry.2.jsonTokens

theorem fieldsToTokens_eq_map (fields : Fields Value) :
    fieldsToTokens fields = fields.map entryTokens := by
  induction fields with
  | nil => rfl
  | cons entry rest ih => rw [fieldsToTokens, ih, List.map_cons, entryTokens]

theorem itemsToJson_eq_map (items : List Value) : itemsToJson items = items.map toJson := by
  induction items with
  | nil => rfl
  | cons item rest ih => rw [itemsToJson, ih, List.map_cons]

theorem fieldsToJson_eq_map (fields : Fields Value) :
    fieldsToJson fields = fields.map fun entry => (entry.1, entry.2.toJson) := by
  induction fields with
  | nil => rfl
  | cons entry rest ih => rw [fieldsToJson, ih, List.map_cons]

/-- The tokens of a document begin with an atom or with the opening of a container. -/
theorem exists_jsonTokens (v : Value) : ∃ token rest, v.jsonTokens = token :: rest ∧
    ((∃ a, token = .atom a) ∨ token.opens = true) := by
  cases v with
  | sequence items => exact ⟨_, _, rfl, .inr rfl⟩
  | mapping fields => exact ⟨_, _, rfl, .inr rfl⟩
  | _ => exact ⟨_, _, rfl, .inl ⟨_, rfl⟩⟩

/-! ### The depth of the tokens -/

/-- The tokens of a document are not nested deeper than the document. -/
theorem fits_jsonTokens {v : Value} {levels limit depth : Nat} (within : v.Within levels)
    (hlimit : depth + levels ≤ limit) : Json.Fits limit depth v.jsonTokens := by
  induction levels generalizing v depth with
  | zero => cases v with
    | sequence items => exact within.elim
    | mapping fields => exact within.elim
    | _ => exact .cons rfl rfl .nil
  | succ levels ih => cases v with
    | sequence items =>
      have hitems : ∀ part ∈ items.map jsonTokens, Json.Fits limit (depth + 1) part := by
        intro part mem
        obtain ⟨item, hitem, rfl⟩ := List.mem_map.1 mem
        exact ih (within item hitem) (by omega)
      rw [jsonTokens, itemsToTokens_eq_map]
      exact .container rfl rfl (by omega) hitems
    | mapping fields =>
      have hentries : ∀ part ∈ fields.map entryTokens, Json.Fits limit (depth + 1) part := by
        intro part mem
        obtain ⟨entry, hentry, rfl⟩ := List.mem_map.1 mem
        exact .cons rfl rfl (.cons rfl rfl (ih (within entry hentry) (by omega)))
      rw [jsonTokens, fieldsToTokens_eq_map]
      exact .container rfl rfl (by omega) hentries
    | _ => exact .cons rfl rfl .nil

/-! ### The machine on the parts of a container -/

variable {stack : List Frame} {rest : List Token}

/-- In an array that has just been opened an item is read as in any other place. -/
theorem run_first (v : Value) (stack : List Frame) (rest : List Token) :
    run (.first stack) (v.jsonTokens ++ rest) =
      run (.node (.array [] :: stack)) (v.jsonTokens ++ rest) := by
  obtain ⟨token, more, hv, hbegins⟩ := v.exists_jsonTokens
  have hopen : token ≠ .closeArray := by
    rintro rfl
    rcases hbegins with ⟨a, ha⟩ | hopens
    · cases ha
    · cases hopens
  have hstep : step (.first stack) token = step (.node (.array [] :: stack)) token := if_neg hopen
  rw [hv, List.cons_append, run, run, hstep]

/-- The machine gets through the tokens of a document with its node complete. -/
def Runs (v : Value) : Prop :=
  ∀ stack rest, run (.node stack) (v.jsonTokens ++ rest) = run (.complete v.toJson stack) rest

/-- The items that are still to come in an array, and its end. -/
theorem run_items {items : List Value} (h : ∀ item ∈ items, Runs item) (latest : Json)
    (done : List Json) (stack : List Frame) (rest : List Token) :
    run (.complete latest (.array done :: stack))
        ((items.map jsonTokens).flatMap (Token.comma :: ·) ++ .closeArray :: rest) =
      run (.complete (.array (done.reverse ++ latest :: items.map toJson)) stack) rest := by
  induction items generalizing latest done with
  | nil =>
    rw [List.map_nil, List.flatMap_nil, List.nil_append, run_cons (by rfl), List.reverse_cons,
      List.map_nil]
  | cons item more ih =>
    have hmore := ih fun other mem => h other (List.mem_cons_of_mem _ mem)
    rw [List.map_cons, List.flatMap_cons, List.cons_append, List.cons_append, run_cons (by rfl),
      List.append_assoc, h item List.mem_cons_self, hmore]
    simp

/-- An entry, from its key on. -/
theorem run_entry {entry : String × Value} (h : Runs entry.2) (done : Fields Json)
    (stack : List Frame) (rest : List Token) :
    run (.key done stack) (entryTokens entry ++ rest) =
      run (.complete entry.2.toJson (.entry done entry.1 :: stack)) rest := by
  rw [entryTokens, List.cons_append, List.cons_append, run_cons (by rfl), run_cons (by rfl), h]

/-- In an object that has just been opened an entry is read as in any other place. -/
theorem run_firstKey (entry : String × Value) (stack : List Frame) (rest : List Token) :
    run (.firstKey stack) (entryTokens entry ++ rest) =
      run (.key [] stack) (entryTokens entry ++ rest) := by
  rw [entryTokens, List.cons_append, run_cons (by rfl), run_cons (by rfl)]

/-- The entries that are still to come in an object, and its end. -/
theorem run_fields {fields : Fields Value} (h : ∀ entry ∈ fields, Runs entry.2) (latest : Json)
    (key : String) (done : Fields Json) (stack : List Frame) (rest : List Token) :
    run (.complete latest (.entry done key :: stack))
        ((fields.map entryTokens).flatMap (Token.comma :: ·) ++ .closeObject :: rest) =
      run (.complete (.object ((fields.map fun entry => (entry.1, entry.2.toJson)).foldl
        (fun done entry => Fields.insert entry.1 entry.2 done)
        (Fields.insert key latest done))) stack) rest := by
  induction fields generalizing latest key done with
  | nil => rw [List.map_nil, List.flatMap_nil, List.nil_append, run_cons (by rfl), List.map_nil,
    List.foldl_nil]
  | cons entry more ih =>
    have hmore := ih fun other mem => h other (List.mem_cons_of_mem _ mem)
    rw [List.map_cons, List.flatMap_cons, List.cons_append, List.cons_append, run_cons (by rfl),
      List.append_assoc, run_entry (h entry List.mem_cons_self), hmore, List.map_cons,
      List.foldl_cons]

/-- The machine gets through the tokens of every document in order. -/
theorem run_jsonTokens {v : Value} (ordered : v.Ordered) : Runs v := by
  induction ordered with
  | @scalar v h =>
    intro stack rest
    cases v with
    | sequence items => cases h
    | mapping fields => cases h
    | _ => rw [jsonTokens, List.cons_append, run_cons (by rfl)]; rfl
  | @sequence items _ ih =>
    intro stack rest
    rw [jsonTokens, toJson, itemsToTokens_eq_map, itemsToJson_eq_map, List.cons_append,
      List.cons_append, run_cons (by rfl), List.append_assoc]
    cases items with
    | nil => rfl
    | cons item more =>
      have hitems := run_items (fun other mem => ih other (List.mem_cons_of_mem _ mem))
        item.toJson [] stack rest
      rw [List.map_cons, Json.separate_cons, List.append_assoc, run_first,
        ih item List.mem_cons_self]
      exact hitems
  | @mapping fields ordered _ ih =>
    intro stack rest
    rw [jsonTokens, toJson, fieldsToTokens_eq_map, fieldsToJson_eq_map, List.cons_append,
      List.cons_append, run_cons (by rfl), List.append_assoc]
    cases fields with
    | nil => rfl
    | cons entry more =>
      have hfields := run_fields (fun other mem => ih other (List.mem_cons_of_mem _ mem))
        entry.2.toJson entry.1 [] stack rest
      have hkept : Fields.ofList ((entry :: more).map fun entry => (entry.1, entry.2.toJson)) =
          (entry :: more).map fun entry => (entry.1, entry.2.toJson) :=
        Fields.ofList_of_ordered (List.pairwise_map.2 ordered)
      rw [List.map_cons, Json.separate_cons, List.append_assoc, run_firstKey,
        run_entry (ih entry List.mem_cons_self), ← hkept]
      exact hfields

/-- The node of a document is what its tokens denote. -/
theorem ofTokens?_jsonTokens {v : Value} (ordered : v.Ordered) :
    Json.ofTokens? v.jsonTokens = some v.toJson := by
  have hrun := run_jsonTokens ordered [] []
  rw [List.append_nil] at hrun
  rw [Json.ofTokens?, hrun]
  rfl

end Value

end DocPath
