import Mathlib
import DocPath.Proofs.IntegerNumerals
import DocPath.Proofs.Outcome
import DocPath.Proofs.Walk

/-!
# Places in YAML documents

A path leads through the nodes of a document as it leads through its value: into a mapping to the
last entry with a key, and through an alias to what it means. What stands there is what was read for
the value at the path (`Node.exists_get?_of_toValue`).

Null in place of an integer that can be read, wherever that stands for a value, does not change
whether a document is read: every step of reading answers if it did before and leaves as many
aliases to follow (`Node.sameEnd_toValue`). Keys stay as they are, except that an alias may stand
for one of the scalars.
-/

namespace DocPath

namespace Fields

/-- The value under a key is that of its last entry. -/
theorem get?_ofList {α : Type} (key : String) (entries : List (String × α)) :
    get? key (ofList entries) = get? key entries.reverse := by
  induction entries using List.reverseRecOn with
  | nil => rfl
  | append_singleton entries entry ih =>
    rw [ofList, List.foldl_append, List.foldl_cons, List.foldl_nil, List.reverse_append,
      List.reverse_singleton, List.singleton_append, get?_cons]
    split
    · rename_i h
      rw [h, get?_insert_self]
    · rename_i h
      rw [get?_insert_of_ne h]
      exact ih

theorem get?_eq_find? {α : Type} (key : String) (fields : Fields α) :
    get? key fields = (fields.find? fun entry => key == entry.1).map Prod.snd := by
  induction fields with
  | nil => rfl
  | cons entry rest ih =>
    rw [get?_cons, List.find?_cons, ih]
    by_cases h : key = entry.1
    · rw [if_pos h, beq_iff_eq.2 h]
      rfl
    · rw [if_neg h, beq_eq_false_iff_ne.2 h]

end Fields

/-! ### Lists -/

/-- The answers for the items of a list, one by one. -/
theorem forall₂_of_mapM {σ ε α β : Type} {f : β → StateT σ (Except ε) α} {xs : List β} {ys : List α}
    {s t : σ} (h : xs.mapM f s = .ok (ys, t)) :
    List.Forall₂ (fun x y => ∃ s t, f x s = .ok (y, t)) xs ys := by
  induction xs generalizing ys s with
  | nil =>
    cases h
    exact .nil
  | cons x rest ih =>
    rw [List.mapM_cons] at h
    obtain ⟨⟨y, u⟩, hfirst, h⟩ := bind_eq_ok.1 h
    obtain ⟨⟨more, w⟩, hrest, h⟩ := bind_eq_ok.1 h
    cases h
    exact .cons ⟨s, u, hfirst⟩ (ih hrest)

theorem exists_find?_of_forall₂ {α β : Type} {R : α → β → Prop} {p : α → Bool} {q : β → Bool}
    {xs : List α} {ys : List β} (h : List.Forall₂ R xs ys) (hpq : ∀ x y, R x y → p x = q y) {x : α}
    (hx : xs.find? p = some x) : ∃ y, ys.find? q = some y ∧ R x y := by
  induction h with
  | nil => cases hx
  | @cons first other rest more hfirst _ ih =>
    rw [List.find?_cons] at hx ⊢
    rw [← hpq first other hfirst]
    split at hx
    · cases hx
      exact ⟨other, rfl, hfirst⟩
    · exact ih hx

/-- Steps over two lists that end alike item by item. -/
theorem sameEnd_mapM {σ ε α β γ δ : Type} {f : α → StateT σ (Except ε) γ}
    {g : β → StateT σ (Except ε) δ} {xs : List α} {ys : List β}
    (h : List.Forall₂ (fun x y => SameEnd (f x) (g y)) xs ys) :
    SameEnd (xs.mapM f) (ys.mapM g) := by
  induction h with
  | nil => exact sameEnd_pure _ _
  | cons first _ ih =>
    rw [List.mapM_cons, List.mapM_cons]
    exact first.bind fun _ _ => ih.bind fun _ _ => sameEnd_pure _ _

namespace Yaml

namespace Node

/-- Whether a node is an alias. -/
def isAlias : Node → Bool
  | .alias _ => true
  | _ => false

/-- The node that an alias means, and any other node itself. -/
def meant (anchors : Anchors) : Node → Node
  | .alias number => (anchors.lookup number).getD .broken
  | node => node

/-- The key that a node is, with one alias to follow. -/
def keyName? (anchors : Anchors) (key : Node) : Option String :=
  match toKey anchors nestingLimit key 1 with
  | .ok (name, _) => some name
  | .error _ => none

/-- The node one step down: an item of a sequence, or the value of the last entry with a key. -/
def child? (anchors : Anchors) (step : Step) (node : Node) : Option Node :=
  match step, node.meant anchors with
  | .index position, .sequence _ items => items[position.toNat]?
  | .key name, .mapping _ entries =>
    (entries.reverse.find? fun entry => entry.1.keyName? anchors == some name).map Prod.snd
  | _, _ => none

/-- The node at a path. -/
def at? (anchors : Anchors) : List Step → Node → Option Node
  | [], node => some (node.meant anchors)
  | step :: rest, node => (node.child? anchors step).bind (at? anchors rest)

variable {anchors : Anchors} {depth s t : Nat} {node target : Node} {v : Value}

theorem resolve_alias (anchors : Anchors) (number s : Nat) :
    (Node.alias number).resolve anchors s =
      if s = 0 then .error .malformed else .ok ((Node.alias number).meant anchors, s - 1) := by
  have hresolve : (Node.alias number).resolve anchors s =
    (if s = 0 then throw .malformed
      else (do set (s - 1); pure ((anchors.lookup number).getD .broken)) : Walk Node) s := rfl
  rw [hresolve]
  split <;> rfl

/-- What reads a node by what it means follows an alias once, if it may, and no alias behind it. -/
theorem follow_alias {α : Type} {read inner : Node → Walk α}
    (hread : ∀ node, read node = node.resolve anchors >>= inner)
    (hinner : ∀ number, inner (.alias number) = throw .malformed) (number s : Nat) :
    read (.alias number) s =
      if s = 0 ∨ ((Node.alias number).meant anchors).isAlias = true then .error .malformed
      else read ((Node.alias number).meant anchors) (s - 1) := by
  have hresolve := resolve_alias anchors number s
  generalize (Node.alias number).meant anchors = target at hresolve ⊢
  rw [hread, hread]
  by_cases hs : s = 0
  · rw [if_pos hs] at hresolve
    rw [if_pos (.inl hs)]
    exact bind_of_error hresolve
  · rw [if_neg hs] at hresolve
    rw [bind_of_ok hresolve]
    cases target with
    | «alias» other =>
      rw [if_pos (.inr rfl), hinner]
      rfl
    | _ =>
      rw [if_neg (by simp [hs, isAlias])]
      rfl

theorem toValue_alias (anchors : Anchors) (depth number s : Nat) :
    toValue anchors depth (.alias number) s =
      if s = 0 ∨ ((Node.alias number).meant anchors).isAlias = true then .error .malformed
      else toValue anchors depth ((Node.alias number).meant anchors) (s - 1) := by
  cases depth <;> exact follow_alias (fun _ => rfl) (fun _ => rfl) number s

theorem toKey_alias (anchors : Anchors) (depth number s : Nat) :
    toKey anchors depth (.alias number) s =
      if s = 0 ∨ ((Node.alias number).meant anchors).isAlias = true then .error .malformed
      else toKey anchors depth ((Node.alias number).meant anchors) (s - 1) :=
  follow_alias (fun _ => rfl) (fun _ => rfl) number s

theorem exists_meant_of_toValue (h : toValue anchors depth node s = .ok (v, t)) :
    ∃ s, toValue anchors depth (node.meant anchors) s = .ok (v, t) := by
  cases node with
  | «alias» number =>
    rw [toValue_alias] at h
    split at h
    · cases h
    · exact ⟨_, h⟩
  | _ => exact ⟨s, h⟩

/-- Collections are no keys. -/
theorem exists_toKey_eq_throw
    (hscalar : ∀ properties plain text, node ≠ .scalar properties plain text)
    (halias : node.isAlias = false) (anchors : Anchors) (depth : Nat) :
    ∃ fault, toKey anchors depth node = throw fault := by
  cases node with
  | scalar properties plain text => exact absurd rfl (hscalar _ _ _)
  | sequence properties items =>
    have hkey : toKey anchors depth (.sequence properties items) =
      (if properties.tag.any Tag.isLocal then throw (.unfit .key)
        else throw (if depth = 0 then .malformed else .unfit .key) : Walk String) := rfl
    rw [hkey]
    split <;> exact ⟨_, rfl⟩
  | mapping properties entries =>
    have hkey : toKey anchors depth (.mapping properties entries) =
      (if properties.tag.any Tag.isLocal then throw (.unfit .key)
        else throw (if depth = 0 then .malformed else .unfit .key) : Walk String) := rfl
    rw [hkey]
    split <;> exact ⟨_, rfl⟩
  | «alias» number => cases halias
  | broken => exact ⟨.malformed, rfl⟩

/-- A key that is no alias does not depend on the state. -/
theorem toKey_eq_ok {name : String} (hnode : node.isAlias = false)
    (h : toKey anchors depth node s = .ok (name, t)) (levels u : Nat) :
    toKey anchors levels node u = .ok (name, u) := by
  by_cases hscalar : ∃ properties plain text, node = .scalar properties plain text
  · obtain ⟨properties, plain, text, rfl⟩ := hscalar
    rw [toKey_of_scalar] at h ⊢
    cases hkey : scalarKey properties plain text with
    | error fault =>
      rw [hkey] at h
      cases h
    | ok key =>
      rw [hkey] at h
      cases h
      rfl
  · simp only [not_exists] at hscalar
    obtain ⟨fault, hkey⟩ := exists_toKey_eq_throw hscalar hnode anchors depth
    rw [hkey] at h
    cases h

theorem keyName?_of_toKey {key : Node} {name : String}
    (h : toKey anchors depth key s = .ok (name, t)) : key.keyName? anchors = some name := by
  rw [keyName?]
  cases hkey : key.isAlias with
  | false => rw [toKey_eq_ok hkey h]
  | true =>
    cases key with
    | «alias» number =>
      rw [toKey_alias] at h ⊢
      split at h
      · cases h
      · rename_i hfollowed
        rw [not_or] at hfollowed
        rw [if_neg (by simp [hfollowed.2]), toKey_eq_ok (Bool.eq_false_iff.2 hfollowed.2) h]
    | _ => cases hkey

theorem keyName?_of_toEntry {entry : Node × Node} {pair : String × Value}
    (h : toEntry anchors depth entry s = .ok (pair, t)) :
    entry.1.keyName? anchors = some pair.1 := by
  obtain ⟨⟨key, u⟩, hkey, h⟩ := bind_eq_ok.1 h
  obtain ⟨⟨value, w⟩, hvalue, h⟩ := bind_eq_ok.1 h
  cases h
  exact keyName?_of_toKey hkey

/-- A node one step down is read for the value one step down. -/
theorem exists_child?_of_toValue {step : Step} {child : Node}
    (h : toValue anchors depth node s = .ok (v, t)) (hc : node.child? anchors step = some child) :
    ∃ levels s t w, toValue anchors levels child s = .ok (w, t) ∧ v.child? step = some w := by
  obtain ⟨s, h⟩ := exists_meant_of_toValue h
  unfold child? at hc
  generalize node.meant anchors = target at h hc
  cases step with
  | index position => cases target with
    | sequence properties items =>
      cases depth with
      | zero => cases h
      | succ depth =>
        rw [toValue_of_sequence] at h
        obtain ⟨⟨values, u⟩, hvalues, h⟩ := bind_eq_ok.1 h
        cases h
        have hitems := forall₂_of_mapM hvalues
        obtain ⟨hlt, rfl⟩ := List.getElem?_eq_some_iff.1 hc
        have hsame : position.toNat < values.length := hitems.length_eq ▸ hlt
        obtain ⟨s, t, hchild⟩ := hitems.get hlt hsame
        exact ⟨depth, s, t, _, hchild, List.getElem?_eq_getElem hsame⟩
    | _ => cases hc
  | key name => cases target with
    | mapping properties entries =>
      cases depth with
      | zero => cases h
      | succ depth =>
        rw [toValue_of_mapping] at h
        obtain ⟨⟨pairs, u⟩, hpairs, h⟩ := bind_eq_ok.1 h
        cases h
        have hentries := List.forall₂_reverse_iff.2 (forall₂_of_mapM hpairs)
        obtain ⟨entry, hentry, rfl⟩ := Option.map_eq_some_iff.1 hc
        obtain ⟨pair, hpair, u, w, hread⟩ := exists_find?_of_forall₂
          (q := fun pair => name == pair.1) hentries (fun entry pair ⟨u, w, hread⟩ => by
            rw [keyName?_of_toEntry hread, Option.some_beq_some, BEq.comm]) hentry
        obtain ⟨⟨key, u⟩, hkey, hread⟩ := bind_eq_ok.1 hread
        obtain ⟨⟨value, w⟩, hvalue, hread⟩ := bind_eq_ok.1 hread
        cases hread
        refine ⟨depth, u, w, value, hvalue, ?_⟩
        rw [Value.child?, Fields.get?_ofList, Fields.get?_eq_find?, hpair]
        rfl
    | _ => cases hc

/-- What stands at a path in a document is read for the value at that path. -/
theorem exists_get?_of_toValue {p : List Step} (h : toValue anchors depth node s = .ok (v, t))
    (hp : node.at? anchors p = some target) :
    ∃ levels s t w, toValue anchors levels target s = .ok (w, t) ∧ v.get? p = some w := by
  induction p generalizing node depth s t v with
  | nil =>
    cases hp
    obtain ⟨s, h⟩ := exists_meant_of_toValue h
    exact ⟨depth, s, t, v, h, rfl⟩
  | cons step rest ih =>
    obtain ⟨child, hc, hrest⟩ := Option.bind_eq_some_iff.1 hp
    obtain ⟨levels, s, t, w, hchild, hw⟩ := exists_child?_of_toValue h hc
    obtain ⟨levels, s, t, x, htarget, hx⟩ := ih hchild hrest
    exact ⟨levels, s, t, x, htarget, Value.get?_cons_eq_some.2 ⟨w, hw, hx⟩⟩

/-! ### Null for an integer -/

mutual

/-- A node with null for an integer, wherever that stands by itself for a value. -/
def withNull (n : Int) : Node → Node
  | .scalar properties plain text =>
    if properties.tag = none ∧ plain = true ∧ text = toString n then .scalar properties true "null"
    else .scalar properties plain text
  | .sequence properties items => .sequence properties (itemsWithNull n items)
  | .mapping properties entries => .mapping properties (entriesWithNull n entries)
  | .alias number => .alias number
  | .broken => .broken

def itemsWithNull (n : Int) : List Node → List Node
  | [] => []
  | item :: rest => withNull n item :: itemsWithNull n rest

def entriesWithNull (n : Int) : List (Node × Node) → List (Node × Node)
  | [] => []
  | (key, value) :: rest => (key, withNull n value) :: entriesWithNull n rest

end

/-- The second node is the first one, perhaps with null for an integer. -/
def Alike (n : Int) (node other : Node) : Prop := other = node ∨ other = node.withNull n

variable {n : Int} {other : Node} {items : List Node} {entries : List (Node × Node)}
  {properties : Properties}

theorem itemsWithNull_eq_map (n : Int) (items : List Node) :
    itemsWithNull n items = items.map (withNull n) := by
  induction items with
  | nil => rfl
  | cons item rest ih => rw [itemsWithNull, ih, List.map_cons]

theorem entriesWithNull_eq_map (n : Int) (entries : List (Node × Node)) :
    entriesWithNull n entries = entries.map fun entry => (entry.1, entry.2.withNull n) := by
  induction entries with
  | nil => rfl
  | cons entry rest ih => rw [entriesWithNull, ih, List.map_cons]

/-- A scalar becomes null only if it is the integer, and has no tag. -/
theorem withNull_scalar (n : Int) (properties : Properties) (plain : Bool) (text : String) :
    withNull n (.scalar properties plain text) = .scalar properties plain text ∨
      ∃ anchor, Node.scalar properties plain text = .scalar ⟨anchor, none⟩ true (toString n) ∧
        withNull n (.scalar properties plain text) = .scalar ⟨anchor, none⟩ true "null" := by
  rw [withNull]
  split
  · rename_i h
    obtain ⟨htag, rfl, rfl⟩ := h
    obtain ⟨anchor, tag⟩ := properties
    obtain rfl : tag = none := htag
    exact .inr ⟨anchor, rfl, rfl⟩
  · exact .inl rfl

theorem alike_sequence (h : Alike n (.sequence properties items) other) :
    ∃ others, other = .sequence properties others ∧ List.Forall₂ (Alike n) items others := by
  rcases h with rfl | rfl
  · exact ⟨items, rfl, List.forall₂_same.2 fun _ _ => .inl rfl⟩
  · refine ⟨items.map (withNull n), by rw [withNull, itemsWithNull_eq_map], ?_⟩
    rw [List.forall₂_map_right_iff]
    exact List.forall₂_same.2 fun _ _ => .inr rfl

theorem alike_mapping (h : Alike n (.mapping properties entries) other) :
    ∃ others, other = .mapping properties others ∧
      List.Forall₂ (fun a b => b.1 = a.1 ∧ Alike n a.2 b.2) entries others := by
  rcases h with rfl | rfl
  · exact ⟨entries, rfl, List.forall₂_same.2 fun _ _ => ⟨rfl, .inl rfl⟩⟩
  · refine ⟨_, by rw [withNull, entriesWithNull_eq_map], ?_⟩
    rw [List.forall₂_map_right_iff]
    exact List.forall₂_same.2 fun _ _ => ⟨rfl, .inr rfl⟩

theorem isAlias_withNull (n : Int) (node : Node) : (node.withNull n).isAlias = node.isAlias := by
  cases node with
  | scalar properties plain text =>
    rw [withNull]
    split <;> rfl
  | _ => rfl

mutual

theorem size_withNull (n : Int) : ∀ node : Node, (node.withNull n).size = node.size
  | .scalar properties plain text => by
    rw [withNull]
    split <;> rfl
  | .sequence _ items => by rw [withNull, size, size, itemsSize_withNull n items]
  | .mapping _ entries => by rw [withNull, size, size, entriesSize_withNull n entries]
  | .alias _ | .broken => rfl

theorem itemsSize_withNull (n : Int) : ∀ items : List Node,
    itemsSize (itemsWithNull n items) = itemsSize items
  | [] => rfl
  | item :: rest => by
    have hitem := size_withNull n item
    have hrest := itemsSize_withNull n rest
    cases item with
    | scalar properties plain text =>
      rcases withNull_scalar n properties plain text with hsame | ⟨anchor, hnode, hnull⟩
      · rw [itemsWithNull, hsame, itemsSize, itemsSize, hrest]
        all_goals exact Node.noConfusion
      · rw [itemsWithNull, hnull, itemsSize, itemsSize, hrest]
        all_goals first | rfl | exact Node.noConfusion
    | _ => simp_all [itemsWithNull, withNull, itemsSize]

theorem entriesSize_withNull (n : Int) : ∀ entries : List (Node × Node),
    entriesSize (entriesWithNull n entries) = entriesSize entries
  | [] => rfl
  | (key, value) :: rest => by
    have hvalue := size_withNull n value
    have hrest := entriesSize_withNull n rest
    cases key <;> simp_all [entriesWithNull, entriesSize]

end

mutual

/-- The nodes that aliases can mean are alike. -/
theorem forall₂_anchored (n : Int) : ∀ node : Node,
    List.Forall₂ (fun a b => b.1 = a.1 ∧ Alike n a.2 b.2) node.anchored (node.withNull n).anchored
  | .scalar properties plain text => by
    rcases withNull_scalar n properties plain text with hsame | ⟨anchor, hnode, hnull⟩
    · rw [hsame]
      exact List.forall₂_same.2 fun _ _ => ⟨rfl, .inl rfl⟩
    · rw [hnode] at hnull ⊢
      rw [hnull]
      cases anchor with
      | none => exact .nil
      | some number => exact .cons ⟨rfl, .inr hnull.symm⟩ .nil
  | .sequence properties items => by
    have hitems := forall₂_itemsAnchored n items
    rw [withNull, anchored, anchored]
    cases properties.anchor with
    | none => exact hitems
    | some number => exact .cons ⟨rfl, .inr rfl⟩ hitems
  | .mapping properties entries => by
    have hentries := forall₂_entriesAnchored n entries
    rw [withNull, anchored, anchored]
    cases properties.anchor with
    | none => exact hentries
    | some number => exact .cons ⟨rfl, .inr rfl⟩ hentries
  | .alias _ | .broken => .nil

theorem forall₂_itemsAnchored (n : Int) : ∀ items : List Node,
    List.Forall₂ (fun a b => b.1 = a.1 ∧ Alike n a.2 b.2) (itemsAnchored items)
      (itemsAnchored (itemsWithNull n items))
  | [] => .nil
  | item :: rest => List.rel_append (forall₂_anchored n item) (forall₂_itemsAnchored n rest)

theorem forall₂_entriesAnchored (n : Int) : ∀ entries : List (Node × Node),
    List.Forall₂ (fun a b => b.1 = a.1 ∧ Alike n a.2 b.2) (entriesAnchored entries)
      (entriesAnchored (entriesWithNull n entries))
  | [] => .nil
  | (_, value) :: rest =>
    List.rel_append (List.rel_append (List.forall₂_same.2 fun _ _ => ⟨rfl, .inl rfl⟩)
      (forall₂_anchored n value)) (forall₂_entriesAnchored n rest)

end

/-! ### Reading with null for an integer -/

theorem isAlias_of_alike (h : Alike n node other) : other.isAlias = node.isAlias := by
  rcases h with rfl | rfl
  · rfl
  · exact isAlias_withNull n node

section

variable {k : Nat} (hk : k = 308) (hn : n.natAbs ≤ 10 ^ k) (hwide : ¬IsWide n) {others : Anchors}
  (hanchors : ∀ number, Alike n ((Node.alias number).meant anchors)
    ((Node.alias number).meant others))

theorem exists_scalarKey_integer (hk : k = 308) (hn : n.natAbs ≤ 10 ^ k) (hwide : ¬IsWide n)
    (anchor : Option Nat) : ∃ name, scalarKey ⟨anchor, none⟩ true (toString n) = .ok name := by
  have hkey : scalarKey ⟨anchor, none⟩ true (toString n) =
    (Meaning.ofPlain (toString n)).toKey (toString n) := rfl
  rw [hkey]
  rcases Meaning.ofPlain_integer hk hn hwide with ⟨hinteger, -⟩ | ⟨x, hfloat, -⟩
  · exact ⟨_, by rw [hinteger]; rfl⟩
  · exact ⟨_, by rw [hfloat]; rfl⟩

include hk hn hwide

theorem sameEnd_toKey_of_alike (h : Alike n node other) (halias : node.isAlias = false) :
    SameEnd (toKey anchors depth node) (toKey others depth other) := by
  have hself : SameEnd (toKey anchors depth node) (toKey others depth node) := by
    cases node with
    | «alias» number => cases halias
    | _ => exact SameEnd.refl _
  rcases h with rfl | rfl
  · exact hself
  cases node with
  | scalar properties plain text =>
    rcases withNull_scalar n properties plain text with hsame | ⟨anchor, hnode, hnull⟩
    · rw [hsame]
      exact hself
    · obtain ⟨name, hname⟩ := exists_scalarKey_integer hk hn hwide anchor
      rw [hnull, hnode, toKey_of_scalar, toKey_of_scalar, hname]
      exact sameEnd_pure name "null"
  | sequence properties items => exact hself
  | mapping properties entries => exact hself
  | «alias» number => cases halias
  | broken => exact hself

theorem sameEnd_toValue_scalar {plain : Bool} {text : String}
    (h : Alike n (.scalar properties plain text) other) :
    SameEnd (toValue anchors depth (.scalar properties plain text))
      (toValue others depth other) := by
  have hself : SameEnd (toValue anchors depth (.scalar properties plain text))
      (toValue others depth (.scalar properties plain text)) := by
    rw [toValue_of_scalar, toValue_of_scalar]
    exact SameEnd.refl _
  rcases h with rfl | rfl
  · exact hself
  rcases withNull_scalar n properties plain text with hsame | ⟨anchor, hnode, hnull⟩
  · rw [hsame]
    exact hself
  · obtain ⟨v, hv, -⟩ := exists_scalarValue_integer hk hn hwide anchor
    rw [hnull, hnode, toValue_of_scalar, toValue_of_scalar, hv]
    exact sameEnd_pure v Value.null

include hanchors

theorem sameEnd_toKey (key : Node) :
    SameEnd (toKey anchors depth key) (toKey others depth key) := by
  cases key with
  | «alias» number =>
    intro s
    have htarget := hanchors number
    rw [toKey_alias, toKey_alias, isAlias_of_alike htarget]
    split
    · rfl
    · rename_i h
      exact sameEnd_toKey_of_alike hk hn hwide htarget (Bool.eq_false_iff.2 (not_or.1 h).2) _
  | _ => exact sameEnd_toKey_of_alike hk hn hwide (.inl rfl) rfl

omit hk hn hwide in
/-- Aliases end alike if all that is no alias does. -/
theorem sameEnd_toValue_of_meant
    (h : ∀ node other, Alike n node other → node.isAlias = false →
      SameEnd (toValue anchors depth node) (toValue others depth other))
    (halike : Alike n node other) :
    SameEnd (toValue anchors depth node) (toValue others depth other) := by
  cases hnode : node.isAlias with
  | false => exact h node other halike hnode
  | true =>
    cases node with
    | «alias» number =>
      obtain rfl : other = .alias number := by rcases halike with rfl | rfl <;> rfl
      intro s
      have htarget := hanchors number
      rw [toValue_alias, toValue_alias, isAlias_of_alike htarget]
      split
      · rfl
      · rename_i h'
        exact h _ _ htarget (Bool.eq_false_iff.2 (not_or.1 h').2) _
    | _ => cases hnode

/-- Reading ends alike with null for an integer that can be read. -/
theorem sameEnd_toValue (h : Alike n node other) :
    SameEnd (toValue anchors depth node) (toValue others depth other) := by
  induction depth generalizing node other with
  | zero =>
    refine sameEnd_toValue_of_meant hanchors (fun node other h halias => ?_) h
    cases node with
    | scalar properties plain text => exact sameEnd_toValue_scalar hk hn hwide h
    | sequence properties items =>
      obtain ⟨others, rfl, -⟩ := alike_sequence h
      exact sameEnd_throw _ _
    | mapping properties entries =>
      obtain ⟨others, rfl, -⟩ := alike_mapping h
      exact sameEnd_throw _ _
    | «alias» number => cases halias
    | broken =>
      rcases h with rfl | rfl <;> exact sameEnd_throw _ _
  | succ depth ih =>
    refine sameEnd_toValue_of_meant hanchors (fun node other h halias => ?_) h
    cases node with
    | scalar properties plain text => exact sameEnd_toValue_scalar hk hn hwide h
    | sequence properties items =>
      obtain ⟨others, rfl, hitems⟩ := alike_sequence h
      rw [toValue_of_sequence, toValue_of_sequence]
      exact (sameEnd_mapM (hitems.imp fun item other => ih)).bind fun _ _ => sameEnd_pure _ _
    | mapping properties entries =>
      obtain ⟨others, rfl, hentries⟩ := alike_mapping h
      rw [toValue_of_mapping, toValue_of_mapping]
      refine (sameEnd_mapM (hentries.imp fun entry other h => ?_)).bind fun _ _ => sameEnd_pure _ _
      rw [toEntry, toEntry, h.1]
      exact (sameEnd_toKey hk hn hwide hanchors entry.1).bind fun _ _ =>
        (ih h.2).bind fun _ _ => sameEnd_pure _ _
    | «alias» number => cases halias
    | broken =>
      rcases h with rfl | rfl <;> exact sameEnd_throw _ _

end

theorem gives_scalar_of_withNull_ne (hwide : IsWide n) {plain : Bool} {text : String}
    (h : withNull n (.scalar properties plain text) ≠ .scalar properties plain text) :
    Gives (toValue anchors depth (.scalar properties plain text)) fun _ => False := by
  rcases withNull_scalar n properties plain text with hsame | ⟨anchor, hnode, -⟩
  · exact absurd hsame h
  · rw [hnode, toValue_of_scalar, scalarValue_of_isWide hwide]
    exact gives_throw _

/-- A wide integer is refused wherever it stands for a value. -/
theorem gives_false_of_withNull_ne (hwide : IsWide n) (h : node.withNull n ≠ node) :
    Gives (toValue anchors depth node) fun _ => False := by
  induction depth generalizing node with
  | zero =>
    cases node with
    | scalar properties plain text => exact gives_scalar_of_withNull_ne hwide h
    | sequence properties items => exact gives_throw _
    | mapping properties entries => exact gives_throw _
    | _ => exact absurd rfl h
  | succ depth ih =>
    cases node with
    | scalar properties plain text => exact gives_scalar_of_withNull_ne hwide h
    | sequence properties items =>
      obtain ⟨item, mem, hitem⟩ : ∃ item ∈ items, item.withNull n ≠ item := by
        by_contra hnone
        simp only [not_exists, not_and, not_not] at hnone
        refine h ?_
        rw [withNull, itemsWithNull_eq_map, List.map_congr_left hnone, List.map_id']
      rw [toValue_of_sequence]
      exact (gives_mapM_of_mem mem (ih hitem)).bind fun _ hfalse => hfalse.elim
    | mapping properties entries =>
      obtain ⟨entry, mem, hentry⟩ : ∃ entry ∈ entries, entry.2.withNull n ≠ entry.2 := by
        by_contra hnone
        simp only [not_exists, not_and, not_not] at hnone
        refine h ?_
        have hsame : ∀ entry ∈ entries, (entry.1, entry.2.withNull n) = entry :=
          fun entry mem => Prod.ext rfl (hnone entry mem)
        rw [withNull, entriesWithNull_eq_map, List.map_congr_left hsame, List.map_id']
      have hread : Gives (toEntry anchors depth entry) fun _ => False :=
        gives_bind fun _ => (ih hentry).bind fun _ hfalse => hfalse.elim
      rw [toValue_of_mapping]
      exact (gives_mapM_of_mem mem hread).bind fun _ hfalse => hfalse.elim
    | _ => exact absurd rfl h

end Node

namespace Document

/-- A document with null for an integer, wherever that stands by itself for a value. -/
def withNull (n : Int) (document : Document) : Document :=
  { document with root := document.root.map (Node.withNull n) }

/-- The node at a path in a document. -/
def at? (document : Document) (p : List Step) : Option Node :=
  document.root.bind (Node.at? document.anchors p)

variable {document : Document} {v : Value} {n : Int} {k : Nat}

/-- What stands at a path in a document is read for the value at that path. -/
theorem exists_get?_of_toValue {p : List Step} {target : Node} (h : document.toValue = .ok v)
    (hp : document.at? p = some target) : ∃ levels s t w,
      target.toValue document.anchors levels s = .ok (w, t) ∧ v.get? p = some w := by
  obtain ⟨root, hroot, htarget⟩ := Option.bind_eq_some_iff.1 hp
  rw [toValue_of_root hroot, finish_eq_ok] at h
  obtain ⟨-, left, hwalk⟩ := h
  exact Node.exists_get?_of_toValue hwalk htarget

/-- An integer that stands for a value is what it is read as. -/
theorem isInteger_of_toValue {p : List Step} {anchor : Option Nat} (hk : k = 308)
    (hn : n.natAbs ≤ 10 ^ k) (h : document.toValue = .ok v)
    (hp : document.at? p = some (.scalar ⟨anchor, none⟩ true (toString n))) :
    ∃ w, v.get? p = some w ∧ w.IsInteger n := by
  obtain ⟨levels, s, t, w, hread, hw⟩ := exists_get?_of_toValue h hp
  refine ⟨w, hw, ?_⟩
  rw [Node.toValue_of_scalar] at hread
  by_cases hwide : IsWide n
  · rw [Node.scalarValue_of_isWide hwide] at hread
    cases hread
  · obtain ⟨x, hx, hinteger⟩ := Node.exists_scalarValue_integer hk hn hwide anchor
    rw [hx] at hread
    cases hread
    exact hinteger

theorem alike_of_forall₂ {xs ys : Anchors}
    (h : List.Forall₂ (fun a b => b.1 = a.1 ∧ Node.Alike n a.2 b.2) xs ys) (number : Nat) :
    Node.Alike n ((xs.lookup number).getD .broken) ((ys.lookup number).getD .broken) := by
  induction h with
  | nil => exact .inl rfl
  | @cons a b _ _ first _ ih =>
    rw [List.lookup_cons, List.lookup_cons, first.1]
    split
    · exact first.2
    · exact ih

theorem alike_meant (document : Document) (n : Int) (number : Nat) :
    Node.Alike n ((Node.alias number).meant document.anchors)
      ((Node.alias number).meant (document.withNull n).anchors) := by
  refine alike_of_forall₂ (List.forall₂_reverse_iff.2 ?_) number
  rw [withNull]
  cases document.root with
  | none => exact .nil
  | some root => exact Node.forall₂_anchored n root

theorem aliasLimit_withNull (document : Document) (n : Int) :
    (document.withNull n).aliasLimit = document.aliasLimit := by
  have hsize : Node.size ∘ Node.withNull n = Node.size := funext (Node.size_withNull n)
  rw [aliasLimit, aliasLimit, withNull, Option.map_map, hsize]

theorem root_withNull {root : Node} (h : document.root = some root) :
    (document.withNull n).root = some (root.withNull n) := by
  rw [withNull, h, Option.map_some]

theorem withNull_of_root_eq_none (h : document.root = none) : document.withNull n = document := by
  cases document with
  | mk root sound =>
    obtain rfl : root = none := h
    rfl

/-- An integer that is not wide is no reason to refuse a document. -/
theorem exists_toValue_iff (hk : k = 308) (hn : n.natAbs ≤ 10 ^ k) (hwide : ¬IsWide n) :
    (∃ v, document.toValue = .ok v) ↔ ∃ v, (document.withNull n).toValue = .ok v := by
  cases hroot : document.root with
  | none => rw [withNull_of_root_eq_none hroot]
  | some root =>
    have hends : SameEnd (root.toValue document.anchors nestingLimit)
        ((root.withNull n).toValue (document.withNull n).anchors nestingLimit) :=
      Node.sameEnd_toValue hk hn hwide (document.alike_meant n) (.inr rfl)
    rw [toValue_of_root hroot, toValue_of_root (root_withNull hroot)]
    simp only [finish_eq_ok, document.aliasLimit_withNull n]
    constructor
    · rintro ⟨v, sound, left, hwalk⟩
      obtain ⟨w, hw⟩ := hends.exists_ok hwalk
      exact ⟨w, sound, left, hw⟩
    · rintro ⟨v, sound, left, hwalk⟩
      obtain ⟨w, hw⟩ := hends.symm.exists_ok hwalk
      exact ⟨w, sound, left, hw⟩

/-- A wide one is. -/
theorem toValue_ne_ok (hwide : IsWide n) (h : document.withNull n ≠ document) :
    document.toValue ≠ .ok v := by
  intro hv
  cases hroot : document.root with
  | none => exact h (withNull_of_root_eq_none hroot)
  | some root =>
    have hne : root.withNull n ≠ root := fun hsame => by
      refine h ?_
      rw [withNull, hroot, Option.map_some, hsame, ← hroot]
    rw [toValue_of_root hroot, finish_eq_ok] at hv
    obtain ⟨-, left, hwalk⟩ := hv
    exact Node.gives_false_of_withNull_ne hwide hne _ _ _ hwalk

/-- A document is read if it is with null for an integer, unless the integer is wide and in it. -/
theorem exists_toValue_iff_withNull (hk : k = 308) (hn : n.natAbs ≤ 10 ^ k) :
    (∃ v, document.toValue = .ok v) ↔
      (∃ v, (document.withNull n).toValue = .ok v) ∧
        (IsWide n → document.withNull n = document) := by
  by_cases hwide : IsWide n
  · by_cases hsame : document.withNull n = document
    · rw [hsame]
      exact ⟨fun h => ⟨h, fun _ => rfl⟩, fun h => h.1⟩
    · refine iff_of_false (fun ⟨v, hv⟩ => toValue_ne_ok hwide hsame hv) fun h => hsame (h.2 hwide)
  · rw [exists_toValue_iff hk hn hwide]
    exact ⟨fun h => ⟨h, fun hw => absurd hw hwide⟩, fun h => h.1⟩

end Document

end Yaml

end DocPath
