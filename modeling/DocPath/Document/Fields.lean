/-!
# Fields: text keys in ascending order

A mapping is held as its list of entries, each key once and the keys ascending by code point.
`insert` and `erase` keep that order (`Ordered`), so two mappings with the same entries are the same
list and whatever is written from one has a single form.
-/

namespace DocPath

/-- Entries of a mapping, from text keys to values. -/
abbrev Fields (α : Type) := List (String × α)

namespace Fields

variable {α : Type}

/-- The value under a key. -/
def get? (key : String) (fields : Fields α) : Option α := fields.lookup key

/-- Whether a key is present. -/
def contains (key : String) (fields : Fields α) : Bool := (get? key fields).isSome

/-- Puts a value under a key: in place when the key is there, else before the first greater key. -/
def insert (key : String) (value : α) : Fields α → Fields α
  | [] => [(key, value)]
  | entry :: rest =>
    if key = entry.1 then (key, value) :: rest
    else if key < entry.1 ∧ contains key rest = false then (key, value) :: entry :: rest
    else entry :: insert key value rest

/-- Takes a key away. -/
def erase (key : String) (fields : Fields α) : Fields α :=
  fields.filter fun entry => entry.1 != key

/-- The keys, in order. -/
def keys (fields : Fields α) : List String := fields.map Prod.fst

/-- Entries in any order, made into fields; of two entries with one key the later counts. -/
def ofList (entries : List (String × α)) : Fields α :=
  entries.foldl (fun fields entry => insert entry.1 entry.2 fields) []

/-- Every key is less than those after it. -/
def Ordered (fields : Fields α) : Prop := fields.Pairwise fun a b => a.1 < b.1

@[simp]
theorem get?_nil (key : String) : get? key ([] : Fields α) = none := rfl

theorem get?_cons (key : String) (entry : String × α) (rest : Fields α) :
    get? key (entry :: rest) = if key = entry.1 then some entry.2 else get? key rest := by
  obtain ⟨first, value⟩ := entry
  by_cases h : key = first
  · simp [get?, h]
  · have : (key == first) = false := by simpa using h
    simp [get?, List.lookup_cons, h, this]

/-- A key reads as what was put under it last. -/
theorem get?_insert_self (key : String) (value : α) (fields : Fields α) :
    get? key (insert key value fields) = some value := by
  induction fields with
  | nil => simp [insert, get?_cons]
  | cons entry rest ih =>
    unfold insert
    split
    · simp [get?_cons]
    · rename_i h
      split
      · simp [get?_cons]
      · rw [get?_cons, if_neg h, ih]

/-- Putting something under a key leaves all other keys as they are. -/
theorem get?_insert_of_ne {key other : String} (h : other ≠ key) (value : α) (fields : Fields α) :
    get? other (insert key value fields) = get? other fields := by
  induction fields with
  | nil => simp [insert, get?_cons, h]
  | cons entry rest ih =>
    unfold insert
    split
    · rename_i hk
      simp [get?_cons, ← hk, h]
    · split
      · rw [get?_cons, if_neg h]
      · rw [get?_cons, get?_cons, ih]

theorem get?_erase_self (key : String) (fields : Fields α) :
    get? key (erase key fields) = none := by
  simp only [get?, erase, List.lookup_eq_none_iff, List.mem_filter]
  intro entry h
  exact bne_iff_ne.2 (Ne.symm (bne_iff_ne.1 h.2))

/-- Taking a key away leaves all other keys as they are. -/
theorem get?_erase_of_ne {key other : String} (h : other ≠ key) (fields : Fields α) :
    get? other (erase key fields) = get? other fields := by
  induction fields with
  | nil => rfl
  | cons entry rest ih =>
    unfold erase at ih ⊢
    rw [get?_cons, ← ih]
    by_cases hk : entry.1 = key
    · rw [List.filter_cons_of_neg (by simp [hk]), if_neg (hk ▸ h)]
    · rw [List.filter_cons_of_pos (by simp [hk]), get?_cons]

/-- Without a key nothing is left of what was put under it. -/
theorem erase_insert_self (key : String) (value : α) (fields : Fields α) :
    erase key (insert key value fields) = erase key fields := by
  induction fields with
  | nil => simp [insert, erase]
  | cons entry rest ih =>
    unfold insert
    split
    · rename_i hk
      simp [erase, ← hk]
    · split
      · simp [erase]
      · simp only [erase, List.filter_cons] at ih ⊢
        rw [ih]

section

variable {β : Type} (f : α → β) (key : String) (fields : Fields α)

/-- A key reads as the image of what it read as before the values were mapped. -/
theorem get?_map :
    get? key (fields.map fun entry => (entry.1, f entry.2)) = (get? key fields).map f := by
  induction fields with
  | nil => rfl
  | cons entry rest ih =>
    rw [List.map_cons, get?_cons, get?_cons, ih]
    split <;> rfl

/-- Where a key goes does not depend on the values. -/
theorem insert_map (value : α) :
    insert key (f value) (fields.map fun entry => (entry.1, f entry.2)) =
      (insert key value fields).map fun entry => (entry.1, f entry.2) := by
  induction fields with
  | nil => rfl
  | cons entry rest ih =>
    have hcontains : contains key (rest.map fun entry => (entry.1, f entry.2)) =
        contains key rest := by
      rw [contains, contains, get?_map, Option.isSome_map]
    rw [List.map_cons, insert, insert]
    dsimp only
    rw [hcontains, ih]
    split
    · rfl
    · split <;> rfl

end

/-- A key that is present is the key of an entry. -/
theorem exists_mem_of_contains {key : String} {fields : Fields α}
    (h : contains key fields = true) : ∃ entry ∈ fields, entry.1 = key := by
  induction fields with
  | nil => cases h
  | cons entry rest ih =>
    rw [contains, get?_cons] at h
    split at h
    · rename_i hk
      exact ⟨entry, List.mem_cons_self, hk.symm⟩
    · obtain ⟨found, mem, hk⟩ := ih h
      exact ⟨found, List.mem_cons_of_mem _ mem, hk⟩

/-- What a key reads as is the value of an entry. -/
theorem mem_of_get? {key : String} {value : α} {fields : Fields α}
    (h : get? key fields = some value) : (key, value) ∈ fields := by
  induction fields with
  | nil => cases h
  | cons entry rest ih =>
    rw [get?_cons] at h
    split at h
    · rename_i hk
      cases h
      rw [hk]
      exact List.mem_cons_self
    · exact List.mem_cons_of_mem _ (ih h)

theorem mem_keys {key : String} {fields : Fields α} :
    key ∈ keys fields ↔ ∃ value, get? key fields = some value := by
  induction fields with
  | nil => simp [keys]
  | cons entry rest ih =>
    simp only [keys, List.map_cons, List.mem_cons, get?_cons] at ih ⊢
    by_cases hk : key = entry.1
    · simp [hk]
    · simp [hk, ih]

theorem mem_insert {key : String} {value : α} {fields : Fields α} {entry : String × α}
    (h : entry ∈ insert key value fields) : entry = (key, value) ∨ entry ∈ fields := by
  induction fields with
  | nil => simpa [insert] using h
  | cons first rest ih =>
    unfold insert at h
    split at h
    · rcases List.mem_cons.1 h with h | h
      · exact .inl h
      · exact .inr (List.mem_cons_of_mem _ h)
    · split at h
      · exact List.mem_cons.1 h
      · rcases List.mem_cons.1 h with rfl | h
        · exact .inr List.mem_cons_self
        · exact (ih h).imp_right (List.mem_cons_of_mem _)

/-- Of two values put under one key the later stays. -/
theorem insert_insert (key : String) (first second : α) (fields : Fields α) :
    insert key second (insert key first fields) = insert key second fields := by
  have there (rest : Fields α) : contains key (insert key first rest) = true := by
    rw [contains, get?_insert_self]
    rfl
  induction fields with
  | nil => simp [insert]
  | cons entry rest ih =>
    rw [insert.eq_2 key first, insert.eq_2 key second]
    by_cases hk : key = entry.1
    · rw [if_pos hk, if_pos hk, insert, if_pos rfl]
    rw [if_neg hk, if_neg hk]
    split
    · rw [insert, if_pos rfl]
    · rw [insert, if_neg hk, if_neg (by simp [there]), ih]

theorem contains_insert_of_ne {key other : String} (h : other ≠ key) (value : α)
    (fields : Fields α) : contains other (insert key value fields) = contains other fields := by
  rw [contains, contains, get?_insert_of_ne h]

/-- Of two keys it does not matter which is put in first. -/
theorem insert_comm {key other : String} (h : key ≠ other) (first second : α) (fields : Fields α) :
    insert key first (insert other second fields) =
      insert other second (insert key first fields) := by
  induction fields with
  | nil => grind [insert, contains, get?_nil]
  | cons entry rest ih =>
    -- where a key goes depends on the keys further on, and the other key makes no difference there
    have hkey := contains_insert_of_ne h second rest
    have hother := contains_insert_of_ne h.symm first rest
    grind [insert, contains, get?_cons]

/-- Putting back what a key reads as changes nothing. -/
theorem insert_of_get? {key : String} {value : α} {fields : Fields α}
    (h : get? key fields = some value) : insert key value fields = fields := by
  induction fields with
  | nil => cases h
  | cons entry rest ih =>
    rw [get?_cons] at h
    split at h
    · rename_i hk
      cases h
      rw [insert, if_pos hk, hk]
    · rename_i hk
      have there : contains key rest = true := by
        rw [contains, h]
        rfl
      rw [insert, if_neg hk, if_neg (by simp [there]), ih h]

theorem Ordered.insert {fields : Fields α} (h : Ordered fields) (key : String) (value : α) :
    Ordered (insert key value fields) := by
  induction fields with
  | nil => simp [Ordered, Fields.insert]
  | cons first rest ih =>
    obtain ⟨before, ordered⟩ := List.pairwise_cons.1 h
    unfold Fields.insert
    split
    · rename_i hk
      exact List.pairwise_cons.2 ⟨fun a ha => hk ▸ before a ha, ordered⟩
    · rename_i hne
      split
      · rename_i hlt
        refine List.pairwise_cons.2 ⟨fun a ha => ?_, h⟩
        rcases List.mem_cons.1 ha with rfl | ha
        · exact hlt.1
        · exact String.lt_trans hlt.1 (before a ha)
      · rename_i hge
        -- a key that is further on is greater than the first one
        have greater : first.1 < key := by
          by_cases there : contains key rest = false
          · exact Std.lt_of_le_of_ne (Std.not_lt.1 fun hlt => hge ⟨hlt, there⟩) (Ne.symm hne)
          · obtain ⟨entry, mem, rfl⟩ := exists_mem_of_contains (by simpa using there)
            exact before entry mem
        refine List.pairwise_cons.2 ⟨fun a ha => ?_, ih ordered⟩
        rcases mem_insert ha with rfl | ha
        · exact greater
        · exact before a ha

theorem Ordered.erase {fields : Fields α} (h : Ordered fields) (key : String) :
    Ordered (erase key fields) := List.Pairwise.filter _ h

/-- Taking away a key that is not there changes nothing. -/
theorem erase_of_get?_none {key : String} {fields : Fields α} (h : get? key fields = none) :
    erase key fields = fields := by
  rw [erase, List.filter_eq_self]
  intro entry mem
  exact bne_iff_ne.2 (Ne.symm (bne_iff_ne.1 (List.lookup_eq_none_iff.1 h entry mem)))

/-- Where no key is there twice, each entry is what its key reads as. -/
theorem Ordered.get?_of_mem {fields : Fields α} (h : Ordered fields) {entry : String × α}
    (mem : entry ∈ fields) : get? entry.1 fields = some entry.2 := by
  induction fields with
  | nil => cases mem
  | cons first rest ih =>
    obtain ⟨before, ordered⟩ := List.pairwise_cons.1 h
    rw [get?_cons]
    rcases List.mem_cons.1 mem with rfl | mem
    · rw [if_pos rfl]
    · have hne : entry.1 ≠ first.1 := by
        intro e
        have hlt := before entry mem
        rw [e] at hlt
        exact String.lt_irrefl _ hlt
      rw [if_neg hne, ih ordered mem]

/-- No key comes again behind the entry that has it. -/
theorem Ordered.get?_rest {entry : String × α} {rest : Fields α} (h : Ordered (entry :: rest)) :
    get? entry.1 rest = none := by
  cases hrest : get? entry.1 rest with
  | none => rfl
  | some again =>
    have hlt := (List.pairwise_cons.1 h).1 _ (mem_of_get? hrest)
    exact absurd hlt (String.lt_irrefl _)

/-- A key that is there is the first one or a greater one. -/
theorem Ordered.eq_or_lt_of_contains {key : String} {first : String × α} {rest : Fields α}
    (h : Ordered (first :: rest)) (there : contains key (first :: rest) = true) :
    key = first.1 ∨ first.1 < key := by
  obtain ⟨entry, mem, rfl⟩ := exists_mem_of_contains there
  rcases List.mem_cons.1 mem with rfl | mem
  · exact .inl rfl
  · exact .inr ((List.pairwise_cons.1 h).1 entry mem)

/-- Fields in order are the same if every key reads as the same. -/
theorem Ordered.eq_of_get? {fields others : Fields α} (h : Ordered fields) (h' : Ordered others)
    (same : ∀ key, get? key fields = get? key others) : fields = others := by
  induction fields generalizing others with
  | nil =>
    cases others with
    | nil => rfl
    | cons other rest =>
      have hother := same other.1
      rw [get?_nil, get?_cons, if_pos rfl] at hother
      cases hother
  | cons first rest ih =>
    cases others with
    | nil =>
      have hfirst := same first.1
      rw [get?_nil, get?_cons, if_pos rfl] at hfirst
      cases hfirst
    | cons other more =>
      have hfirst : get? first.1 (first :: rest) = some first.2 := by rw [get?_cons, if_pos rfl]
      have hother : get? other.1 (other :: more) = some other.2 := by rw [get?_cons, if_pos rfl]
      have hkey : first.1 = other.1 := by
        have hle : first.1 = other.1 ∨ other.1 < first.1 :=
          h'.eq_or_lt_of_contains (by rw [contains, ← same, hfirst]; rfl)
        have hge : other.1 = first.1 ∨ first.1 < other.1 :=
          h.eq_or_lt_of_contains (by rw [contains, same, hother]; rfl)
        rcases hle with he | hlt
        · exact he
        · rcases hge with he | hgt
          · exact he.symm
          · exact absurd (String.lt_trans hlt hgt) (String.lt_irrefl _)
      have hvalue : first.2 = other.2 := by
        rw [same, hkey, hother] at hfirst
        exact (Option.some.inj hfirst).symm
      have hrest : rest = more := by
        refine ih (List.pairwise_cons.1 h).2 (List.pairwise_cons.1 h').2 fun key => ?_
        by_cases hk : key = first.1
        · rw [hk, h.get?_rest, hkey, h'.get?_rest]
        · have hboth := same key
          rwa [get?_cons, if_neg hk, get?_cons, if_neg (hkey ▸ hk)] at hboth
      rw [Prod.ext hkey hvalue, hrest]

/-- What was taken away from fields in order goes back to where it was. -/
theorem Ordered.insert_erase {key : String} {value : α} {fields : Fields α} (h : Ordered fields)
    (hget : get? key fields = some value) :
    Fields.insert key value (Fields.erase key fields) = fields := by
  refine ((h.erase key).insert key value).eq_of_get? h fun other => ?_
  by_cases hother : other = key
  · rw [hother, get?_insert_self, hget]
  · rw [get?_insert_of_ne hother, get?_erase_of_ne hother]

/-- A key greater than all others goes to the end. -/
theorem insert_of_forall_lt {key : String} {fields : Fields α}
    (h : ∀ entry ∈ fields, entry.1 < key) (value : α) :
    insert key value fields = fields ++ [(key, value)] := by
  induction fields with
  | nil => rfl
  | cons first rest ih =>
    have hfirst : first.1 < key := h first List.mem_cons_self
    have hne : key ≠ first.1 := by
      rintro rfl
      exact String.lt_irrefl _ hfirst
    have hge : ¬key < first.1 := fun hlt => String.lt_irrefl _ (String.lt_trans hlt hfirst)
    have hrest := ih fun entry mem => h entry (List.mem_cons_of_mem _ mem)
    rw [insert, if_neg hne, if_neg fun hboth => hge hboth.1, hrest, List.cons_append]

/-- Fields in order are made from their own entries. -/
theorem ofList_of_ordered {fields : Fields α} (h : Ordered fields) : ofList fields = fields := by
  suffices ∀ done left : Fields α, Ordered (done ++ left) →
      left.foldl (fun fields entry => insert entry.1 entry.2 fields) done = done ++ left from
    this [] fields h
  intro done left
  induction left generalizing done with
  | nil => simp
  | cons entry rest ih =>
    intro ordered
    have hlt : ∀ other ∈ done, other.1 < entry.1 := fun other mem =>
      (List.pairwise_append.1 ordered).2.2 other mem entry List.mem_cons_self
    have e : done ++ entry :: rest = (done ++ [entry]) ++ rest := by simp
    rw [List.foldl_cons, insert_of_forall_lt hlt, e]
    exact ih _ (e ▸ ordered)

/-- Fields made from any list are in order. -/
theorem ordered_ofList (entries : List (String × α)) : Ordered (ofList entries) := by
  suffices ∀ fields : Fields α, Ordered fields →
      Ordered (entries.foldl (fun fields entry => insert entry.1 entry.2 fields) fields) from
    this [] List.Pairwise.nil
  induction entries with
  | nil => exact fun _ h => h
  | cons entry rest ih => exact fun fields h => ih _ (h.insert entry.1 entry.2)

/-- Every entry of fields made from a list is one of the list. -/
theorem mem_of_mem_ofList {entries : List (String × α)} {entry : String × α}
    (h : entry ∈ ofList entries) : entry ∈ entries := by
  suffices ∀ fields : Fields α,
      entry ∈ entries.foldl (fun fields entry => insert entry.1 entry.2 fields) fields →
        entry ∈ entries ∨ entry ∈ fields from (this [] h).resolve_right List.not_mem_nil
  clear h
  induction entries with
  | nil => exact fun _ h => .inr h
  | cons first rest ih =>
    intro fields h
    rcases ih _ h with mem | mem
    · exact .inl (List.mem_cons_of_mem _ mem)
    · rcases mem_insert mem with rfl | mem
      · exact .inl List.mem_cons_self
      · exact .inr mem

end Fields

end DocPath
