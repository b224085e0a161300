import DocPath.Proofs.Write
import Mathlib

/-!
# When a write fails, and what it leaves

Two things stop a write. A position meets a node that is neither null nor a sequence (`Blocked`),
or it lies too far behind the end of a sequence (`Oversized`). Both are told from the document as it
was before the write. The first step at which nodes have to be created leaves null behind it, and
null stops no step but a position that is too large; so a write that is blocked has changed nothing
yet, and one that asks too much leaves what it created on the way.
-/

namespace DocPath

namespace Value

/-- After `i` steps there is a node that a position cannot go on from. -/
structure Blocked (p : List Step) (d : Value) (i : Nat) (node : Value) : Prop where
  index : ∃ position, p[i]? = some (.index position)
  reached : get? (p.take i) d = some node
  not_null : node.isNull = false
  not_sequence : node.isSequence = false

/-- After `i` steps a position leads nowhere, and is too large for a sequence to be filled up to. -/
structure Oversized (p : List Step) (d : Value) (i : Nat) (position : UInt64) : Prop where
  index : p[i]? = some (.index position)
  large : positionLimit ≤ position.toNat
  missing : get? (p.take (i + 1)) d = none

/-- The position that stops a write for its size: nothing else blocks it, and none before does. -/
structure Oversteps (p : List Step) (d : Value) (i : Nat) (position : UInt64) : Prop where
  oversized : Oversized p d i position
  free : ∀ j node, ¬Blocked p d j node
  first : ∀ j other, j < i → ¬Oversized p d j other

variable {step : Step} {rest : List Step} {d node : Value} {i : Nat} {position : UInt64}

/-! ### From one step to the next -/

theorem blocked_zero : Blocked (step :: rest) d 0 node ↔
    node = d ∧ (∃ position, step = .index position) ∧ d.isNull = false ∧ d.isSequence = false := by
  constructor
  · rintro ⟨⟨position, hi⟩, hr, hn, hs⟩
    obtain rfl := Option.some.inj hr
    exact ⟨rfl, ⟨position, Option.some.inj hi⟩, hn, hs⟩
  · rintro ⟨rfl, ⟨position, rfl⟩, hn, hs⟩
    exact ⟨⟨position, rfl⟩, rfl, hn, hs⟩

theorem blocked_succ :
    Blocked (step :: rest) d (i + 1) node ↔ Blocked rest (slot step d) i node := by
  constructor
  · rintro ⟨hi, hr, hn, hs⟩
    obtain ⟨child, hc, hr⟩ := get?_cons_eq_some.1 hr
    exact ⟨hi, by rw [slot_of_child? hc, hr], hn, hs⟩
  · rintro ⟨hi, hr, hn, hs⟩
    exact ⟨hi, get?_cons_of_slot hr hn, hn, hs⟩

theorem oversized_zero : Oversized (step :: rest) d 0 position ↔
    step = .index position ∧ positionLimit ≤ position.toNat ∧ child? step d = none := by
  have hone : get? ((step :: rest).take (0 + 1)) d = child? step d := by
    rw [List.take_succ_cons, List.take_zero, get?_cons]
    cases child? step d <;> rfl
  constructor
  · rintro ⟨hi, hl, hm⟩
    exact ⟨Option.some.inj hi, hl, hone ▸ hm⟩
  · rintro ⟨rfl, hl, hm⟩
    exact ⟨rfl, hl, hone ▸ hm⟩

theorem oversized_succ :
    Oversized (step :: rest) d (i + 1) position ↔ Oversized rest (slot step d) i position := by
  have hget (hi : rest[i]? = some (.index position)) :
      get? ((step :: rest).take (i + 1 + 1)) d = get? (rest.take (i + 1)) (slot step d) := by
    refine get?_cons_slot step (fun e => ?_) d
    rcases List.take_eq_nil_iff.1 e with h | rfl
    · cases h
    · cases hi
  constructor
  · rintro ⟨hi, hl, hm⟩
    exact ⟨hi, hl, (hget hi).symm.trans hm⟩
  · rintro ⟨hi, hl, hm⟩
    exact ⟨hi, hl, (hget hi).trans hm⟩

theorem Oversteps.succ (h : Oversteps (step :: rest) d (i + 1) position) :
    Oversteps rest (slot step d) i position where
  oversized := oversized_succ.1 h.oversized
  free j node hb := h.free (j + 1) node (blocked_succ.2 hb)
  first j other hj ho := h.first (j + 1) other (Nat.succ_lt_succ hj) (oversized_succ.2 ho)

/-- A step that nothing stops finds its node ready. -/
theorem exists_prepare (hb : ∀ node, ¬Blocked (step :: rest) d 0 node)
    (ho : ∀ position, ¬Oversized (step :: rest) d 0 position) :
    ∃ w, prepare step d = (none, w) := by
  cases step with
  | key name => exact ⟨_, rfl⟩
  | index i =>
    cases hv : openItems? d with
    | none => exact absurd (blocked_zero.2 ⟨rfl, ⟨i, rfl⟩, openItems?_eq_none.1 hv⟩) (hb d)
    | some items =>
      refine ⟨_, prepare_index_eq_none.2 ⟨items, hv, fun hl => ho i ?_, rfl⟩⟩
      refine oversized_zero.2 ⟨rfl, hl.2, ?_⟩
      rcases openItems?_eq_some.1 hv with rfl | ⟨rfl, rfl⟩
      · exact List.getElem?_eq_none hl.1
      · rfl

/-- A position that is too large stops a write at null or at a sequence that is too short. -/
theorem prepare_of_oversized (hb : ∀ node, ¬Blocked (step :: rest) d 0 node)
    (ho : Oversized (step :: rest) d 0 position) : ∃ items,
      (d = .sequence items ∨ d = .null ∧ items = []) ∧
        prepare step d = (some (.tooLarge position), .sequence items) := by
  obtain ⟨rfl, hl, hm⟩ := oversized_zero.1 ho
  cases hv : openItems? d with
  | none => exact absurd (blocked_zero.2 ⟨rfl, ⟨position, rfl⟩, openItems?_eq_none.1 hv⟩) (hb d)
  | some items =>
    have hd := openItems?_eq_some.1 hv
    have hlen : items.length ≤ position.toNat := by
      rcases hd with rfl | ⟨rfl, rfl⟩
      · exact List.getElem?_eq_none_iff.1 hm
      · exact Nat.zero_le _
    refine ⟨items, hd, ?_⟩
    rw [prepare, hv]
    exact if_pos ⟨hlen, hl⟩

/-! ### The whole walk -/

section

variable {α : Type} (edit : Value → α × Value)

/-- A write that is blocked leaves the document as it is. -/
theorem zoom_of_blocked {p : List Step} (h : Blocked p d i node) :
    zoom edit p d = (.error ⟨i, .wrongKind .array node.kind⟩, d) := by
  induction p generalizing d i with
  | nil =>
    obtain ⟨position, hi⟩ := h.index
    cases hi
  | cons step rest ih => cases i with
    | zero =>
      obtain ⟨rfl, ⟨position, rfl⟩, hn⟩ := blocked_zero.1 h
      have hp : prepare (.index position) node = (some (.wrongKind .array node.kind), node) := by
        rw [prepare, openItems?_eq_none.2 hn]
      exact zoom_cons_of_obstacle edit hp rest
    | succ i =>
      obtain ⟨child, hc, -⟩ := get?_cons_eq_some.1 h.reached
      rw [zoom_cons_of_prepare edit (prepare_of_child? hc), ih (blocked_succ.1 h),
        slot_of_child? hc, setChild_of_child? hc]
      rfl

/-- A write that asks too much stops there, whatever it was to do. -/
theorem zoom_of_oversteps {p : List Step} (h : Oversteps p d i position) :
    (zoom edit p d).1 = .error ⟨i, .tooLarge position⟩ := by
  induction p generalizing d i with
  | nil => cases h.oversized.index
  | cons step rest ih => cases i with
    | zero =>
      obtain ⟨items, -, hp⟩ := prepare_of_oversized (h.free 0) h.oversized
      rw [zoom_cons_of_obstacle edit hp]
      rfl
    | succ i =>
      obtain ⟨w, hp⟩ := exists_prepare (h.free 0) fun q => h.first 0 q (Nat.succ_pos i)
      rw [zoom_cons_of_prepare edit hp, ih h.succ]
      rfl

/-- If there is a sequence to fill up, it is left as it is, and the document with it. -/
theorem zoom_of_oversteps_sequence {p : List Step} {items : List Value}
    (h : Oversteps p d i position) (hs : get? (p.take i) d = some (.sequence items)) :
    (zoom edit p d).2 = d := by
  induction p generalizing d i with
  | nil => cases h.oversized.index
  | cons step rest ih => cases i with
    | zero =>
      obtain ⟨found, hd, hp⟩ := prepare_of_oversized (h.free 0) h.oversized
      obtain rfl := Option.some.inj hs
      rw [zoom_cons_of_obstacle edit hp]
      rcases hd with hd | ⟨hd, -⟩
      · exact hd.symm
      · cases hd
    | succ i =>
      obtain ⟨child, hc, hr⟩ := get?_cons_eq_some.1 hs
      have hslot := slot_of_child? hc
      rw [zoom_cons_of_prepare edit (prepare_of_child? hc), ih h.succ (hslot ▸ hr), hslot,
        setChild_of_child? hc]

/-- If there is none, an empty one is left where it was to be. -/
theorem zoom_of_oversteps_missing {p : List Step} (h : Oversteps p d i position)
    (hs : ∀ items, get? (p.take i) d ≠ some (.sequence items)) :
    zoom (fun _ => ((), .sequence [])) (p.take i) d = (.ok (), (zoom edit p d).2) := by
  induction p generalizing d i with
  | nil => cases h.oversized.index
  | cons step rest ih => cases i with
    | zero =>
      obtain ⟨items, hd, hp⟩ := prepare_of_oversized (h.free 0) h.oversized
      rw [zoom_cons_of_obstacle edit hp]
      rcases hd with rfl | ⟨-, rfl⟩
      · exact absurd rfl (hs items)
      · rfl
    | succ i =>
      obtain ⟨w, hp⟩ := exists_prepare (h.free 0) fun q => h.first 0 q (Nat.succ_pos i)
      have hslot (items) : get? (rest.take i) (slot step d) ≠ some (.sequence items) :=
        fun hget => hs items (get?_cons_of_slot hget rfl)
      rw [List.take_succ_cons, zoom_cons_of_prepare _ hp, zoom_cons_of_prepare edit hp,
        ih h.succ hslot]
      rfl

/-- A write that nothing stops gets through. -/
theorem zoom_of_free {p : List Step} (hb : ∀ j node, ¬Blocked p d j node)
    (ho : ∀ j position, ¬Oversized p d j position) : ∃ a, (zoom edit p d).1 = .ok a := by
  induction p generalizing d with
  | nil => exact ⟨_, rfl⟩
  | cons step rest ih =>
    obtain ⟨w, hp⟩ := exists_prepare (hb 0) (ho 0)
    obtain ⟨a, ha⟩ := ih (fun j node h => hb (j + 1) node (blocked_succ.2 h))
      (fun j position h => ho (j + 1) position (oversized_succ.2 h))
    exact ⟨a, by rw [zoom_cons_of_prepare edit hp, ha, mapError_ok]⟩

end

/-- A write is blocked at one place at most. -/
theorem Blocked.unique {p : List Step} {j : Nat} {other : Value} (h : Blocked p d i node)
    (h' : Blocked p d j other) : i = j := by
  have hzoom := (zoom_of_blocked (fun _ => ((), .null)) h).symm.trans (zoom_of_blocked _ h')
  rw [Prod.mk.injEq, Except.error.injEq, Halt.mk.injEq] at hzoom
  exact hzoom.1.1

/-- Among the positions that are too large one is met first. -/
theorem exists_oversteps {p : List Step} (hb : ¬∃ i node, Blocked p d i node)
    (ho : ∃ i position, Oversized p d i position) : ∃ i position, Oversteps p d i position := by
  classical
  obtain ⟨q, hq⟩ := Nat.find_spec ho
  exact ⟨Nat.find ho, q, hq, fun j node h => hb ⟨j, node, h⟩,
    fun j other hj h => Nat.find_min ho hj ⟨other, h⟩⟩

/-- A write is blocked, or it meets a position that is too large, or nothing stops it. -/
theorem blocked_or_oversteps_or_free (p : List Step) (d : Value) :
    (∃ i node, Blocked p d i node) ∨ (∃ i position, Oversteps p d i position) ∨
      (¬∃ i node, Blocked p d i node) ∧ ¬∃ i position, Oversized p d i position := by
  by_cases hb : ∃ i node, Blocked p d i node
  · exact .inl hb
  · by_cases ho : ∃ i position, Oversized p d i position
    · exact .inr (.inl (exists_oversteps hb ho))
    · exact .inr (.inr ⟨hb, ho⟩)

/-! ### Writing at a path -/

/-- How a write ends that is to bring a document `d` to `outcome` at a path `p`. -/
structure WriteOutcome {α : Type} (d : Value) (p : Path) (outcome : Except AccessError α × Value) :
    Prop where
  mismatch_iff : (∃ path expected actual, outcome.1 = .error (.typeMismatch path expected actual)) ↔
    ∃ i node, Blocked p.steps d i node
  mismatch_unique : ∀ i j m n, Blocked p.steps d i m → Blocked p.steps d j n → i = j
  /-- The error names the node in the way, and the document is as it was. -/
  mismatch : ∀ i node, Blocked p.steps d i node →
    outcome = (.error (.typeMismatch (p.location i) .array node.kind), d)
  tooLarge_iff : (∃ path index, outcome.1 = .error (.indexTooLarge path index)) ↔
    (¬∃ i node, Blocked p.steps d i node) ∧ ∃ i position, Oversized p.steps d i position
  tooLarge : ∀ i position, Oversteps p.steps d i position →
    outcome.1 = .error (.indexTooLarge (p.location i) position)
  /-- A sequence that is there stays as it is. -/
  tooLarge_sequence : ∀ i position items, Oversteps p.steps d i position →
    get? (p.steps.take i) d = some (.sequence items) → outcome.2 = d
  /-- Otherwise an empty sequence is put there, after the steps before the position. -/
  tooLarge_missing : ∀ i position, Oversteps p.steps d i position →
    (∀ items, get? (p.steps.take i) d ≠ some (.sequence items)) →
      (i = 0 → outcome.2 = .sequence []) ∧
      ∀ q : Path, q.steps = p.steps.take i → d.setAt q (.sequence []) = (.ok (), outcome.2)
  ok : (¬∃ i node, Blocked p.steps d i node) → (¬∃ i position, Oversized p.steps d i position) →
    ∃ result, outcome.1 = .ok result

section

variable {α : Type} (edit : Value → α × Value) {p : Path}

theorem editAt_of_blocked (h : Blocked p.steps d i node) :
    d.editAt p edit = (.error (.typeMismatch (p.location i) .array node.kind), d) := by
  rw [editAt_eq, zoom_of_blocked edit h]
  rfl

theorem editAt_of_oversteps (h : Oversteps p.steps d i position) :
    (d.editAt p edit).1 = .error (.indexTooLarge (p.location i) position) := by
  rw [editAt_eq, zoom_of_oversteps edit h]
  rfl

theorem editAt_of_free (hb : ¬∃ i node, Blocked p.steps d i node)
    (ho : ¬∃ i position, Oversized p.steps d i position) :
    ∃ result, (d.editAt p edit).1 = .ok result := by
  obtain ⟨a, ha⟩ := zoom_of_free edit (fun j node h => hb ⟨j, node, h⟩)
    fun j position h => ho ⟨j, position, h⟩
  exact ⟨a, by rw [editAt_eq, ha, mapError_ok]⟩

theorem editAt_outcome (d : Value) (p : Path) : WriteOutcome d p (d.editAt p edit) := by
  have hcases := blocked_or_oversteps_or_free p.steps d
  constructor
  case mismatch_iff =>
    constructor
    · rintro ⟨path, expected, actual, h⟩
      rcases hcases with hb | ⟨i, position, hs⟩ | ⟨hb, ho⟩
      · exact hb
      · cases h.symm.trans (editAt_of_oversteps edit hs)
      · obtain ⟨result, hr⟩ := editAt_of_free edit hb ho
        cases h.symm.trans hr
    · rintro ⟨i, node, h⟩
      exact ⟨_, _, _, congrArg Prod.fst (editAt_of_blocked edit h)⟩
  case mismatch_unique => exact fun i j m n h h' => h.unique h'
  case mismatch => exact fun i node h => editAt_of_blocked edit h
  case tooLarge_iff =>
    constructor
    · rintro ⟨path, index, h⟩
      rcases hcases with ⟨i, node, hb⟩ | ⟨i, position, hs⟩ | ⟨hb, ho⟩
      · cases h.symm.trans (congrArg Prod.fst (editAt_of_blocked edit hb))
      · exact ⟨fun ⟨j, node, hb⟩ => hs.free j node hb, i, position, hs.oversized⟩
      · obtain ⟨result, hr⟩ := editAt_of_free edit hb ho
        cases h.symm.trans hr
    · rintro ⟨hb, ho⟩
      obtain ⟨i, position, hs⟩ := exists_oversteps hb ho
      exact ⟨_, _, editAt_of_oversteps edit hs⟩
  case tooLarge => exact fun i position h => editAt_of_oversteps edit h
  case tooLarge_sequence => exact fun i position items h hs => zoom_of_oversteps_sequence edit h hs
  case tooLarge_missing =>
    intro i position h hs
    have hz := zoom_of_oversteps_missing edit h hs
    refine ⟨?_, fun q e => (editAt_eq_ok _).2 (e ▸ hz)⟩
    rintro rfl
    exact (congrArg Prod.snd hz).symm
  case ok => exact editAt_of_free edit

end

/-- How putting a value at a path, or asking for the node there, ends: by a mismatch that changes
nothing, at a position that is too large, or well. -/
theorem setAt_entryAt_outcome (d : Value) (p : Path) (v : Value) :
    positionLimit ≤ 2 ^ 62 ∧ WriteOutcome d p (d.setAt p v) ∧ WriteOutcome d p (d.entryAt p) :=
  ⟨by decide, editAt_outcome _ d p, editAt_outcome _ d p⟩

end Value

end DocPath
