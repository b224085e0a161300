import Mathlib
import DocPath.Proofs.JsonRoundTrip
import DocPath.Proofs.JsonLocality

/-!
# Places in JSON texts

Where null may stand in a text any other atom may, and is there in the document then
(`Value.exists_follows_ofJsonText?`). The machine that reads tokens never looks into the nodes that
it has read, so started with one atom or another it goes through the same states (`State.Follows`):
each token takes all of them to the next state or none (`State.agree_step`), and so does a row
(`State.agree_run`). The documents at the end are a family, one for each atom. The place of the atom
is not kept in it; it is found again as a path at which null gives null and true gives true
(`Value.Follows`).
-/

namespace DocPath

open Json (Atom Token Frame)

/-- What there may be for an atom is there for every one or for none, and is good. -/
def Agree {α : Type} (Good : (Atom → α) → Prop) (f : Atom → Option α) : Prop :=
  ∃ found : Option (Atom → α), (∀ a, f a = found.map (· a)) ∧ ∀ F ∈ found, Good F

namespace Agree

variable {α β : Type} {Good : (Atom → α) → Prop} {Good' : (Atom → β) → Prop}

theorem none : Agree Good fun _ => .none := ⟨.none, fun _ => rfl, nofun⟩

theorem some {F : Atom → α} (h : Good F) : Agree Good fun a => .some (F a) :=
  ⟨.some F, fun _ => rfl, fun _ hF => Option.some.inj hF ▸ h⟩

theorem bind {f : Atom → Option α} {g : α → Option β} (h : Agree Good f)
    (hg : ∀ F, Good F → Agree Good' fun a => g (F a)) : Agree Good' fun a => (f a).bind g := by
  obtain ⟨found, hfound, hgood⟩ := h
  cases found with
  | none =>
    rw [funext hfound]
    exact .none
  | some F =>
    rw [funext hfound]
    exact hg F (hgood F rfl)

/-- What is there for one atom is there for every one. -/
theorem exists_of_eq_some {f : Atom → Option α} (h : Agree Good f) {a : Atom} {x : α}
    (hx : f a = .some x) : ∃ F, Good F ∧ F a = x ∧ ∀ b, f b = .some (F b) := by
  obtain ⟨found, hfound, hgood⟩ := h
  cases found with
  | none =>
    rw [hfound] at hx
    cases hx
  | some F =>
    rw [hfound] at hx
    exact ⟨F, hgood F rfl, Option.some.inj hx, hfound⟩

end Agree

/-! ### Documents that follow an atom -/

namespace Value

/-- One document for each atom: where null gives null and true gives true, the atom itself is. -/
def Follows (F : Atom → Value) : Prop :=
  ∀ p, (F .null).get? p = some .null → (F (.bool true)).get? p = some (.bool true) →
    ∀ a, (F a).get? p = some a.toValue

theorem follows_const (v : Value) : Follows fun _ => v := by
  intro p hnull htrue
  dsimp only at hnull htrue
  rw [hnull] at htrue
  cases htrue

theorem follows_atom : Follows Atom.toValue := by
  intro p hnull
  cases p with
  | nil => exact fun _ _ => rfl
  | cons step rest => cases step <;> cases hnull

/-- Steps into a container lead to the same part of it for each atom. -/
theorem follows_of_child? {F : Atom → Value} (container : F .null ≠ .null)
    (h : ∀ step, Agree Follows fun a => child? step (F a)) : Follows F := by
  intro p hnull htrue a
  cases p with
  | nil => exact absurd (Option.some.inj hnull) container
  | cons step rest =>
    obtain ⟨found, hfound, hfollows⟩ := h step
    have hchild (a : Atom) : child? step (F a) = found.map (· a) := hfound a
    cases found with
    | none =>
      rw [get?, hchild] at hnull
      cases hnull
    | some G =>
      rw [get?, hchild] at hnull htrue ⊢
      exact hfollows G rfl rest hnull htrue a

theorem follows_sequence {items : List (Atom → Value)} (h : ∀ item ∈ items, Follows item) :
    Follows fun a => .sequence (items.map (· a)) := by
  refine follows_of_child? nofun fun step => ?_
  cases step with
  | key name => exact .none
  | index position =>
    exact ⟨items[position.toNat]?, fun _ => List.getElem?_map,
      fun G hG => h G (List.mem_of_getElem? hG)⟩

theorem follows_mapping {fields : Fields (Atom → Value)} (h : ∀ entry ∈ fields, Follows entry.2) :
    Follows fun a => .mapping (fields.map fun entry => (entry.1, entry.2 a)) := by
  refine follows_of_child? nofun fun step => ?_
  cases step with
  | key name =>
    have hget (a : Atom) := Fields.get?_map (fun G : Atom → Value => G a) name fields
    exact ⟨Fields.get? name fields, hget, fun G hG => h _ (Fields.mem_of_get? hG)⟩
  | index position => exact .none

end Value

namespace Json

/-- Nodes whose documents follow the atom. -/
def Follows (F : Atom → Json) : Prop := Value.Follows fun a => (F a).toValue

theorem follows_array {items : List (Atom → Json)} (h : ∀ item ∈ items, Follows item) :
    Follows fun a => .array (items.map (· a)) := by
  have hitems : ∀ a, (Json.array (items.map (· a))).toValue =
      .sequence ((items.map fun item a => (item a).toValue).map (· a)) := fun a => by
    rw [toValue, toItems_eq_map, List.map_map, List.map_map]
    rfl
  rw [Follows, funext hitems]
  exact Value.follows_sequence (List.forall_mem_map.2 h)

theorem follows_object {fields : Fields (Atom → Json)} (h : ∀ entry ∈ fields, Follows entry.2) :
    Follows fun a => .object (fields.map fun entry => (entry.1, entry.2 a)) := by
  have hfields : ∀ a, (Json.object (fields.map fun entry => (entry.1, entry.2 a))).toValue =
      .mapping ((fields.map fun entry => (entry.1, fun a => (entry.2 a).toValue)).map
        fun entry => (entry.1, entry.2 a)) := fun a => by
    rw [toValue, toFields_eq_map, List.map_map, List.map_map]
    rfl
  rw [Follows, funext hfields]
  exact Value.follows_mapping (List.forall_mem_map.2 h)

/-! ### The machine -/

/-- Open containers whose parts follow the atom. -/
inductive Frame.Follows : (Atom → Frame) → Prop where
  | array {items : List (Atom → Json)} (h : ∀ item ∈ items, Json.Follows item) :
    Frame.Follows fun a => .array (items.map (· a))
  | entry {fields : Fields (Atom → Json)} (h : ∀ entry ∈ fields, Json.Follows entry.2)
    (key : String) :
    Frame.Follows fun a => .entry (fields.map fun entry => (entry.1, entry.2 a)) key

namespace State

variable {stack : List (Atom → Frame)} {fields : Fields (Atom → Json)} {latest : Atom → Json}
  {S : Atom → State}

/-- Machines that are at the same place, with nodes that follow the atom. -/
inductive Follows : (Atom → State) → Prop where
  | node {stack : List (Atom → Frame)} (h : ∀ frame ∈ stack, Frame.Follows frame) :
    Follows fun a => .node (stack.map (· a))
  | first {stack : List (Atom → Frame)} (h : ∀ frame ∈ stack, Frame.Follows frame) :
    Follows fun a => .first (stack.map (· a))
  | firstKey {stack : List (Atom → Frame)} (h : ∀ frame ∈ stack, Frame.Follows frame) :
    Follows fun a => .firstKey (stack.map (· a))
  | key {fields : Fields (Atom → Json)} {stack : List (Atom → Frame)}
    (hfields : ∀ entry ∈ fields, Json.Follows entry.2) (h : ∀ frame ∈ stack, Frame.Follows frame) :
    Follows fun a => .key (fields.map fun entry => (entry.1, entry.2 a)) (stack.map (· a))
  | colon {fields : Fields (Atom → Json)} {stack : List (Atom → Frame)} (name : String)
    (hfields : ∀ entry ∈ fields, Json.Follows entry.2) (h : ∀ frame ∈ stack, Frame.Follows frame) :
    Follows fun a => .colon (fields.map fun entry => (entry.1, entry.2 a)) name (stack.map (· a))
  | complete {latest : Atom → Json} {stack : List (Atom → Frame)} (hlatest : Json.Follows latest)
    (h : ∀ frame ∈ stack, Frame.Follows frame) :
    Follows fun a => .complete (latest a) (stack.map (· a))

theorem agree_begin? (h : ∀ frame ∈ stack, Frame.Follows frame) (token : Token) :
    Agree Follows fun a => begin? (stack.map (· a)) token := by
  cases token with
  | atom b => exact .some (.complete (Value.follows_const b.toValue) h)
  | openArray => exact .some (.first h)
  | openObject => exact .some (.firstKey h)
  | _ => exact .none

theorem agree_key? (hfields : ∀ entry ∈ fields, Json.Follows entry.2)
    (h : ∀ frame ∈ stack, Frame.Follows frame) (token : Token) : Agree Follows fun a =>
      key? (fields.map fun entry => (entry.1, entry.2 a)) (stack.map (· a)) token := by
  cases token with
  | atom b => cases b with
    | text name => exact .some (.colon name hfields h)
    | _ => exact .none
  | _ => exact .none

theorem agree_continue? (hlatest : Json.Follows latest)
    (h : ∀ frame ∈ stack, Frame.Follows frame) (token : Token) :
    Agree Follows fun a => continue? (latest a) (stack.map (· a)) token := by
  cases stack with
  | nil => exact .none
  | cons frame stack =>
    obtain ⟨hframe, hstack⟩ := List.forall_mem_cons.1 h
    cases hframe with
    | @array items hitems =>
      have hall : ∀ item ∈ latest :: items, Json.Follows item :=
        List.forall_mem_cons.2 ⟨hlatest, hitems⟩
      cases token with
      | comma => exact .some (.node (List.forall_mem_cons.2 ⟨.array hall, hstack⟩))
      | closeArray =>
        have hdone : Json.Follows fun a => .array ((latest :: items).reverse.map (· a)) :=
          follows_array fun item mem => hall item (List.mem_reverse.1 mem)
        simp only [List.map_reverse] at hdone
        exact .some (.complete hdone hstack)
      | _ => exact .none
    | @entry fields hfields name =>
      have hall : ∀ entry ∈ Fields.insert name latest fields, Json.Follows entry.2 := by
        intro entry mem
        rcases Fields.mem_insert mem with rfl | mem
        · exact hlatest
        · exact hfields entry mem
      have hinsert (a : Atom) := Fields.insert_map (fun F : Atom → Json => F a) name fields latest
      cases token with
      | comma =>
        simp only [List.map_cons, continue?, hinsert]
        exact .some (.key hall hstack)
      | closeObject =>
        simp only [List.map_cons, continue?, hinsert]
        exact .some (.complete (follows_object hall) hstack)
      | _ => exact .none

/-- A token moves machines that are at the same place to the same place. -/
theorem agree_step (h : Follows S) (token : Token) : Agree Follows fun a => step (S a) token := by
  cases h with
  | node h => exact agree_begin? h token
  | first h =>
    by_cases hclose : token = .closeArray
    · simp only [step, if_pos hclose]
      exact .some (.complete (Value.follows_const (.sequence [])) h)
    · simp only [step, if_neg hclose]
      exact agree_begin? (List.forall_mem_cons.2 ⟨.array (List.forall_mem_nil _), h⟩) token
  | firstKey h =>
    by_cases hclose : token = .closeObject
    · simp only [step, if_pos hclose]
      exact .some (.complete (Value.follows_const (.mapping [])) h)
    · simp only [step, if_neg hclose]
      exact agree_key? (List.forall_mem_nil _) h token
  | key hfields h => exact agree_key? hfields h token
  | colon name hfields h =>
    by_cases hcolon : token = .colon
    · simp only [step, if_pos hcolon]
      exact .some (.node (List.forall_mem_cons.2 ⟨.entry hfields name, h⟩))
    · simp only [step, if_neg hcolon]
      exact .none
  | complete hlatest h => exact agree_continue? hlatest h token

theorem run_eq_bind (state : State) (token : Token) (rest : List Token) :
    run state (token :: rest) = (step state token).bind (run · rest) := by
  rw [run]
  cases step state token <;> rfl

theorem run_append (state : State) (before after : List Token) :
    run state (before ++ after) = (run state before).bind (run · after) := by
  induction before generalizing state with
  | nil => rfl
  | cons token rest ih =>
    rw [List.cons_append, run_eq_bind, run_eq_bind, Option.bind_assoc]
    exact Option.bind_congr fun next _ => ih next

/-- A row of tokens does as well. -/
theorem agree_run (h : Follows S) (row : List Token) : Agree Follows fun a => run (S a) row := by
  induction row generalizing S with
  | nil => exact .some h
  | cons token rest ih =>
    simp only [run_eq_bind]
    exact (agree_step h token).bind fun _ hnext => ih hnext

theorem agree_result? (h : Follows S) : Agree Json.Follows fun a => result? (S a) := by
  cases h with
  | @complete latest stack hlatest h => cases stack with
    | nil => exact .some hlatest
    | cons frame stack => exact .none
  | _ => exact .none

/-- After a complete node there is no atom. -/
theorem continue?_atom (latest : Json) (stack : List Frame) (a : Atom) :
    continue? latest stack (.atom a) = none := by
  cases stack with
  | nil => rfl
  | cons frame stack => cases frame <;> rfl

/-- Where null may stand any atom may. -/
theorem exists_step_atom (h : Follows S) {next : State}
    (hnull : step (S .null) (.atom .null) = some next) :
    ∃ S', Follows S' ∧ ∀ a, step (S a) (.atom a) = some (S' a) := by
  have hatom : Json.Follows .atom := Value.follows_atom
  cases h with
  | node h => exact ⟨_, .complete hatom h, fun _ => rfl⟩
  | first h =>
    have hstack := List.forall_mem_cons.2 ⟨Frame.Follows.array (List.forall_mem_nil _), h⟩
    exact ⟨_, .complete hatom hstack, fun _ => rfl⟩
  | complete => exact absurd hnull (by simp [step, continue?_atom])
  | _ => cases hnull

/-- After an atom there is no atom. -/
theorem step_atom {state next : State} {a : Atom} (h : step state (.atom a) = some next)
    (b : Atom) : step next (.atom b) = none := by
  have hkey {fields : Fields Json} {stack : List Frame}
      (h : key? fields stack (.atom a) = some next) : step next (.atom b) = none := by
    cases a with
    | text name =>
      cases h
      rfl
    | _ => cases h
  cases state with
  | node stack =>
    cases h
    exact continue?_atom _ _ b
  | first stack =>
    cases h
    exact continue?_atom (.atom a) (.array [] :: stack) b
  | firstKey stack => exact hkey h
  | key fields stack => exact hkey h
  | colon => cases h
  | complete latest stack =>
    rw [step, continue?_atom] at h
    cases h

end State

variable {before after : List Token}

/-- Two atoms, one after the other, are refused. -/
theorem ofTokens?_atom_atom (before after : List Token) (a b : Atom) :
    ofTokens? (before ++ .atom a :: .atom b :: after) = none := by
  rw [ofTokens?, State.run_append]
  cases hbefore : State.run (.node []) before with
  | none => rfl
  | some state =>
    rw [Option.bind_some, State.run_eq_bind]
    cases hstep : State.step state (.atom a) with
    | none => rfl
    | some next =>
      rw [Option.bind_some, State.run_eq_bind, State.step_atom hstep]
      rfl

/-- Where a row with null is a node, so is the row with any atom in its place. -/
theorem exists_follows_ofTokens? {node : Json}
    (h : ofTokens? (before ++ .atom .null :: after) = some node) :
    ∃ F, Follows F ∧ F .null = node ∧ ∀ a, ofTokens? (before ++ .atom a :: after) = some (F a) := by
  have hstart : State.Follows fun _ => .node [] := .node (List.forall_mem_nil _)
  obtain ⟨state, hrun, hresult⟩ := Option.bind_eq_some_iff.1 h
  rw [State.run_append] at hrun
  obtain ⟨reached, hbefore, hrun⟩ := Option.bind_eq_some_iff.1 hrun
  obtain ⟨S, hS, rfl, hS'⟩ := (State.agree_run hstart before).exists_of_eq_some (a := .null) hbefore
  rw [State.run_eq_bind] at hrun
  obtain ⟨next, hnext, hrun⟩ := Option.bind_eq_some_iff.1 hrun
  obtain ⟨T, hT, hT'⟩ := State.exists_step_atom hS hnext
  have hagree : Agree Follows fun a => ofTokens? (before ++ .atom a :: after) := by
    have heq (a : Atom) : ofTokens? (before ++ .atom a :: after) =
        (State.run (T a) after).bind State.result? := by
      rw [ofTokens?, State.run_append, hS' a, Option.bind_some, State.run_eq_bind, hT',
        Option.bind_some]
    simp only [heq]
    exact (State.agree_run hT after).bind fun _ => State.agree_result?
  exact hagree.exists_of_eq_some h

/-! ### Texts -/

theorem nesting_atom (depth : Nat) (before after : List Token) (a b : Atom) :
    nesting depth (before ++ .atom a :: after) = nesting depth (before ++ .atom b :: after) := by
  induction before generalizing depth with
  | nil => rfl
  | cons token rest ih => rw [List.cons_append, List.cons_append, nesting, nesting, ih]

theorem not_isAtom_of_getLast? {a : Atom} {node : Json}
    (h : ofTokens? (before ++ .atom a :: after) = some node) :
    ∀ token ∈ before.getLast?, token.isAtom = false := by
  intro token hlast
  obtain ⟨first, rfl⟩ := List.getLast?_eq_some_iff.1 hlast
  cases token with
  | atom b =>
    rw [List.append_assoc, List.singleton_append, ofTokens?_atom_atom] at h
    cases h
  | _ => rfl

theorem not_isAtom_of_head? {a : Atom} {node : Json}
    (h : ofTokens? (before ++ .atom a :: after) = some node) :
    ∀ token ∈ after.head?, token.isAtom = false := by
  intro token hhead
  obtain ⟨rest, rfl⟩ := List.head?_eq_some_iff.1 hhead
  cases token with
  | atom b =>
    rw [ofTokens?_atom_atom] at h
    cases h
  | _ => rfl

/-- A text that is an atom wherever nothing goes on with it. -/
def Spells (text : String) (a : Atom) : Prop :=
  ∀ more, Ends more → readToken? (text.toList ++ more) = some (.atom a, more)

/-- Where an atom may stand between two texts it is cut as that atom. -/
theorem lex_between {before : String} {row : List Token} (hrow : lex before.toList = some row)
    (text after : String) {a : Atom}
    (hread : readToken? (text.toList ++ after.toList) = some (.atom a, after.toList))
    (apart : ∀ token ∈ row.getLast?, token.isAtom = true →
      ∀ c ∈ (text.toList ++ after.toList).head?, isNumeric c = false) :
    lex (before ++ text ++ after).toList =
      (lex after.toList).map fun rest => row ++ .atom a :: rest := by
  rw [String.toList_append, String.toList_append, List.append_assoc, lex_append hrow apart,
    lex_of_readToken? hread, Option.map_map]
  rfl

end Json

/-- Where null may stand in a text, any other atom may, and is what is there then. -/
theorem Value.exists_follows_ofJsonText? {before after : String} {v : Value}
    (hbefore : (Json.lex before.toList).isSome)
    (h : ofJsonText? (before ++ "null" ++ after) = some v) :
    ∃ F, Follows F ∧ F .null = v ∧
      ∀ text a, Json.Spells text a → ofJsonText? (before ++ text ++ after) = some (F a) := by
  obtain ⟨row, hrow⟩ := Option.isSome_iff_exists.1 hbefore
  have hnull := Json.lex_between hrow "null" after rfl fun _ _ _ c hc => by cases hc; rfl
  obtain ⟨node, hparse, rfl⟩ := Option.map_eq_some_iff.1 h
  obtain ⟨tokens, hlex, hnode⟩ := Option.bind_eq_some_iff.1 hparse
  rw [hnull] at hlex
  obtain ⟨rest, hrest, rfl⟩ := Option.map_eq_some_iff.1 hlex
  obtain ⟨hnesting, hnode⟩ := Option.ite_none_right_eq_some.1 hnode
  obtain ⟨F, hfollows, hF, hatoms⟩ := Json.exists_follows_ofTokens? hnode
  refine ⟨fun a => (F a).toValue, hfollows, congrArg Json.toValue hF, fun text a hspells => ?_⟩
  have hends := Json.ends_of_lex hrest (Json.not_isAtom_of_head? hnode)
  have hlex' := Json.lex_between hrow text after (hspells _ hends) fun token hlast hatom => by
    rw [Json.not_isAtom_of_getLast? hnode token hlast] at hatom
    cases hatom
  rw [Json.nesting_atom _ _ _ _ a] at hnesting
  rw [ofJsonText?, Json.parse?, hlex', hrest, Option.map_some, Option.bind_eq_bind,
    Option.bind_some, if_pos hnesting, hatoms, Option.map_some]

end DocPath
