import DocPath.Pipeline.Selector
import DocPath.Proofs.DecodedOrder
import DocPath.Yaml.Writer

/-!
# Reading back what was written

A written text presents a tree: scalars that mean something, sequences, and mappings with text keys.
Where that is the tree of the value that was written (`Value.ReadsBack`), the value itself is read
back, every number and every text as what it was, if its mappings are in order and it is not nested
too deep.
-/

namespace DocPath

/-- No more than `depth` collections are nested in a value. -/
def Value.Within : (depth : Nat) → Value → Prop
  | 0, .sequence _ => False
  | 0, .mapping _ => False
  | depth + 1, .sequence items => ∀ v ∈ items, Within depth v
  | depth + 1, .mapping fields => ∀ entry ∈ fields, Within depth entry.2
  | _, _ => True

namespace Yaml

/-- Whether a scalar with a text and a meaning is what a value is. -/
def Meaning.Means (text : String) : Meaning → Value → Prop
  | .null, .null => True
  | .bool b, .bool c => b = c
  | .integer n, .int m => n = m.toInt
  | .float x, .float y => x = y
  | .text, .text s => text = s
  | _, _ => False

mutual

/-- A node without tags and aliases presents the tree of a value. -/
inductive Node.Presents : Node → Value → Prop where
  | scalar {plain : Bool} {text : String} {m : Meaning} {v : Value}
    (h : meaning none plain text = .ok m) (means : m.Means text v) :
    Presents (.scalar .none plain text) v
  | sequence {nodes : List Node} {items : List Value} (h : Node.PresentItems nodes items) :
    Presents (.sequence .none nodes) (.sequence items)
  | mapping {entries : List (Node × Node)} {fields : Fields Value}
    (h : Node.PresentEntries entries fields) :
    Presents (.mapping .none entries) (.mapping fields)

/-- Nodes that present values one by one. -/
inductive Node.PresentItems : List Node → List Value → Prop where
  | nil : PresentItems [] []
  | cons {node : Node} {v : Value} {nodes : List Node} {items : List Value}
    (first : Node.Presents node v) (rest : PresentItems nodes items) :
    PresentItems (node :: nodes) (v :: items)

/-- Entries that present keys and values one by one. -/
inductive Node.PresentEntries : List (Node × Node) → Fields Value → Prop where
  | nil : PresentEntries [] []
  | cons {key node : Node} {name : String} {v : Value} {entries : List (Node × Node)}
    {fields : Fields Value} (first : Node.Presents key (.text name))
    (second : Node.Presents node v) (rest : PresentEntries entries fields) :
    PresentEntries ((key, node) :: entries) ((name, v) :: fields)

end

/-- A sound document whose root presents the tree of a value. -/
def Document.Presents (document : Document) (v : Value) : Prop :=
  document.sound = true ∧ ∃ root, document.root = some root ∧ root.Presents v

/-- An integer is read by its sign, as a natural number of 64 bits where it is not negative, and is
the same integer again. -/
theorem Meaning.toValue_integer (text : String) (n : Int64) :
    (Meaning.integer n.toInt).toValue text = .ok (.int n) := by
  rw [Meaning.toValue]
  by_cases hpos : 0 < n.toInt
  · have hlt : n.toInt < 2 ^ 63 := n.toInt_lt
    have hsmall : n.toInt.toNat < 2 ^ 64 := by omega
    have hsize : ((UInt64.ofNat n.toInt.toNat).toNat : Int) = n.toInt := by
      rw [UInt64.toNat_ofNat_of_lt' hsmall, Int.toNat_of_nonneg (Int.le_of_lt hpos)]
    rw [if_pos hpos, Value.ofUInt64_eq_int hsize]
  · rw [if_neg hpos, Int64.ofInt_toInt]

/-- A scalar is read as the value that it is. -/
theorem Meaning.toValue_of_means {text : String} {m : Meaning} {v : Value} (h : m.Means text v) :
    m.toValue text = .ok v := by
  cases m with
  | integer n => cases v with
    | int k =>
      obtain rfl : n = k.toInt := h
      exact toValue_integer text k
    | _ => cases h
  | _ => cases v <;> cases h <;> rfl

namespace Node

variable {node : Node} {entries : List (Node × Node)} {v : Value} {depth : Nat}

theorem toValue_scalar (anchors : Anchors) (depth : Nat) (plain : Bool) (text : String) :
    toValue anchors depth (.scalar .none plain text) =
      liftM (meaning none plain text >>= Meaning.toValue text) :=
  toValue_of_scalar anchors depth .none plain text

theorem resolve_of_presents (h : Presents node v) (anchors : Anchors) :
    node.resolve anchors = pure node := by
  cases h <;> rfl

/-- What presents a text is a scalar of that text. -/
theorem exists_scalar_of_presents {s : String} (h : Presents node (.text s)) :
    ∃ plain, node = .scalar .none plain s ∧ meaning none plain s = .ok .text := by
  cases h with
  | @scalar plain text m _ h means => cases m with
    | text =>
      obtain rfl : text = s := means
      exact ⟨plain, rfl, h⟩
    | _ => cases means

theorem exists_sequence_of_presents {items : List Value} (h : Presents node (.sequence items)) :
    ∃ nodes, node = .sequence .none nodes ∧ PresentItems nodes items := by
  cases h with
  | @scalar plain text m _ h means => cases m <;> cases means
  | sequence h => exact ⟨_, rfl, h⟩

theorem exists_mapping_of_presents {fields : Fields Value} (h : Presents node (.mapping fields)) :
    ∃ entries, node = .mapping .none entries ∧ PresentEntries entries fields := by
  cases h with
  | @scalar plain text m _ h means => cases m <;> cases means
  | mapping h => exact ⟨_, rfl, h⟩

theorem toKey_of_presents {name : String} (h : Presents node (.text name)) (anchors : Anchors)
    (depth : Nat) : toKey anchors depth node = pure name := by
  obtain ⟨plain, rfl, hmeaning⟩ := exists_scalar_of_presents h
  have hread : toKey anchors depth (.scalar .none plain name) =
      liftM (meaning none plain name >>= Meaning.toKey name) := rfl
  rw [hread, hmeaning]
  rfl

/-- Nodes that each are read as what they present are read so together. -/
theorem mapM_of_presentItems {α : Type} {g : α → Value} {f : Node → Walk α} {nodes : List Node}
    {as : List α} (h : PresentItems nodes (as.map g))
    (hf : ∀ node a, a ∈ as → Presents node (g a) → f node = pure a) :
    nodes.mapM f = pure as := by
  induction as generalizing nodes with
  | nil =>
    cases h
    rfl
  | cons a as ih =>
    cases h with
    | cons first rest =>
      have hrest := ih rest fun node a mem => hf node a (List.mem_cons_of_mem _ mem)
      rw [List.mapM_cons, hf _ a List.mem_cons_self first, pure_bind, hrest, pure_bind]

theorem mapM_of_presentEntries {f : Node × Node → Walk (String × Value)}
    {entries : List (Node × Node)} {fields : Fields Value} (h : PresentEntries entries fields)
    (hf : ∀ key node name v, (name, v) ∈ fields → Presents key (.text name) → Presents node v →
      f (key, node) = pure (name, v)) :
    entries.mapM f = pure fields := by
  induction fields generalizing entries with
  | nil =>
    cases h
    rfl
  | cons field fields ih =>
    cases h with
    | cons first second rest =>
      have hrest := ih rest fun key node name v mem =>
        hf key node name v (List.mem_cons_of_mem _ mem)
      rw [List.mapM_cons, hf _ _ _ _ List.mem_cons_self first second, pure_bind, hrest, pure_bind]

/-- A node reads as the value whose tree it presents. -/
theorem toValue_of_presents (h : Presents node v) (anchors : Anchors) (ordered : v.Ordered)
    (within : v.Within depth) : toValue anchors depth node = pure v := by
  induction depth generalizing node v with
  | zero =>
    cases h with
    | scalar h means =>
      rw [toValue_scalar, h]
      exact congrArg liftM (Meaning.toValue_of_means means)
    | sequence h => cases within
    | mapping h => cases within
  | succ depth ih =>
    cases h with
    | scalar h means =>
      rw [toValue_scalar, h]
      exact congrArg liftM (Meaning.toValue_of_means means)
    | @sequence nodes items h =>
      have hitems : nodes.mapM (toValue anchors depth) = pure items :=
        mapM_of_presentItems (g := id) (by rwa [List.map_id]) fun node v mem hnode =>
          ih hnode (ordered.of_mem_items mem) (within v mem)
      rw [toValue_of_sequence, hitems, pure_bind]
    | @mapping entries fields h =>
      have hentries := mapM_of_presentEntries h
        (f := toEntry anchors depth) fun key node name v mem hkey hnode => by
          have hvalue := ih hnode (ordered.of_mem mem) (within _ mem)
          simp only [toEntry, toKey_of_presents hkey, hvalue, pure_bind]
      rw [toValue_of_mapping, hentries, pure_bind, Fields.ofList_of_ordered ordered.fields]

/-! ### Selectors -/

theorem decode_text {s : String} (h : Presents node (.text s)) (anchors : Anchors) :
    (DecodeYaml.decode anchors node : Walk String) = pure s := by
  obtain ⟨plain, rfl, -⟩ := exists_scalar_of_presents h
  rfl

/-- A scalar that is text does not say that nothing is there. -/
theorem isAbsent_of_presents {s : String} (h : Presents node (.text s)) :
    node.isAbsent = pure false := by
  obtain ⟨plain, rfl, hmeaning⟩ := exists_scalar_of_presents h
  cases plain with
  | false => rfl
  | true =>
    have hplain : Meaning.ofPlain s = .text := Except.ok.inj hmeaning
    cases hnull : s.isEmpty || Meaning.isNull s with
    | false =>
      simp only [isAbsent, Properties.none, hnull]
      rfl
    | true =>
      rw [Meaning.ofPlain, if_pos hnull] at hplain
      cases hplain

theorem decode_some_text {s : String} (h : Presents node (.text s)) (anchors : Anchors) :
    (DecodeYaml.decode anchors node : Walk (Option String)) = pure (some s) := by
  have hsome : (DecodeYaml.decode anchors node : Walk (Option String)) = (do
      let node ← node.resolve anchors
      if ← node.isAbsent then pure none
      else some <$> (DecodeYaml.decode anchors node : Walk String)) := rfl
  rw [hsome, resolve_of_presents h, pure_bind, isAbsent_of_presents h, pure_bind, decode_text h]
  rfl

theorem toPairs_cons {key : Node} {name : String} (h : Presents key (.text name)) (node : Node)
    (entries : List (Node × Node)) (anchors : Anchors) :
    (Node.mapping .none ((key, node) :: entries)).toPairs anchors = (do
      let pairs ← (Node.mapping .none entries).toPairs anchors
      pure ((name, node) :: pairs)) := by
  have hpairs (entries : List (Node × Node)) : (Node.mapping .none entries).toPairs anchors =
      (entries.mapM fun entry => do
        pure (← DecodeYaml.decode anchors entry.1, entry.2)) := rfl
  rw [hpairs, hpairs, List.mapM_cons]
  dsimp only
  rw [decode_text h, pure_bind, pure_bind]

/-- The entries of labels are read as those labels. -/
theorem exists_pairs_of_labels {labels : Fields String} (anchors : Anchors)
    (h : PresentEntries entries (labels.map fun (key, text) => (key, .text text))) :
    ∃ pairs, (Node.mapping .none entries).toPairs anchors = pure pairs ∧
      (pairs.mapM fun (key, value) => do pure (key, ← DecodeYaml.decode anchors value)) =
        (pure labels : Walk (Fields String)) := by
  induction labels generalizing entries with
  | nil =>
    cases h
    exact ⟨[], rfl, rfl⟩
  | cons label labels ih =>
    obtain ⟨name, text⟩ := label
    cases h with
    | @cons key node _ _ entries _ first second rest =>
      obtain ⟨pairs, hpairs, hlabels⟩ := ih rest
      refine ⟨(name, node) :: pairs, ?_, ?_⟩
      · rw [toPairs_cons first, hpairs, pure_bind]
      · rw [List.mapM_cons]
        dsimp only
        rw [decode_text second, hlabels]
        rfl

theorem decode_labels {labels : Fields String} (ordered : Fields.Ordered labels)
    (h : Presents node (.mapping (labels.map fun (key, text) => (key, .text text))))
    (anchors : Anchors) :
    (DecodeYaml.decode anchors node : Walk (Fields String)) = pure labels := by
  obtain ⟨entries, rfl, hentries⟩ := exists_mapping_of_presents h
  obtain ⟨pairs, hpairs, hlabels⟩ := exists_pairs_of_labels anchors hentries
  have hdecode : (DecodeYaml.decode anchors (.mapping .none entries) : Walk (Fields String)) = (do
      let pairs ← (← (Node.mapping .none entries).toPairs anchors).mapM fun (key, value) => do
        pure (key, ← DecodeYaml.decode anchors value)
      pure (Fields.ofList pairs)) := rfl
  rw [hdecode, hpairs, pure_bind, hlabels, pure_bind, Fields.ofList_of_ordered ordered]

/-- Decodes the node under a key; without one there is a default. -/
def decodeUnder {α : Type} [DecodeYaml α] (anchors : Anchors) (key : String) (default : α)
    (pairs : List (String × Node)) : Walk α := do
  match ← Selector.onlyUnder key pairs with
  | some node => DecodeYaml.decode anchors node
  | none => pure default

/-- A selector is read from a node that presents its document. -/
theorem decode_selector {selector : Selector} (ordered : Fields.Ordered selector.labels)
    (h : Presents node selector.toValue) (anchors : Anchors) :
    (DecodeYaml.decode anchors node : Walk Selector) = pure selector := by
  obtain ⟨entries, rfl, hentries⟩ := exists_mapping_of_presents h
  have hdecode : (DecodeYaml.decode anchors (.mapping .none entries) : Walk Selector) = (do
      let pairs ← (Node.mapping .none entries).toPairs anchors
      let directory ← decodeUnder anchors Selector.directoryKey none pairs
      let labels ← decodeUnder anchors Selector.labelsKey [] pairs
      pure ⟨directory, labels⟩) := by
    delta instDecodeYamlSelector
    dsimp only
    refine bind_congr fun pairs => ?_
    rw [decodeUnder, bind_assoc]
    refine bind_congr fun found => ?_
    cases found
    all_goals
      refine bind_congr fun directory => ?_
      rw [decodeUnder, bind_assoc]
      refine bind_congr fun found => ?_
      cases found <;> rfl
  obtain ⟨directory, labels⟩ := selector
  have hnil : (Node.mapping .none []).toPairs anchors = pure [] := rfl
  cases directory with
  | none => cases labels with
    | nil =>
      cases hentries
      rfl
    | cons label labels => cases hentries with
      | @cons _ second _ _ _ _ labels_key labels_node rest =>
        cases rest
        rw [hdecode, toPairs_cons labels_key, hnil, pure_bind]
        change (do
          let labels ← (DecodeYaml.decode anchors second : Walk (Fields String))
          pure (⟨none, labels⟩ : Selector)) = _
        rw [decode_labels ordered labels_node, pure_bind]
  | some directory => cases labels with
    | nil => cases hentries with
      | @cons _ first _ _ _ _ directory_key directory_node rest =>
        cases rest
        rw [hdecode, toPairs_cons directory_key, hnil, pure_bind]
        change (do
          let directory ← (DecodeYaml.decode anchors first : Walk (Option String))
          pure (⟨directory, []⟩ : Selector)) = _
        rw [decode_some_text directory_node, pure_bind]
    | cons label labels => cases hentries with
      | @cons _ first _ _ _ _ directory_key directory_node rest => cases rest with
        | @cons _ second _ _ _ _ labels_key labels_node rest =>
          cases rest
          rw [hdecode, toPairs_cons directory_key, toPairs_cons labels_key, hnil, pure_bind,
            pure_bind]
          change (do
            let directory ← (DecodeYaml.decode anchors first : Walk (Option String))
            let labels ← (DecodeYaml.decode anchors second : Walk (Fields String))
            pure (⟨directory, labels⟩ : Selector)) = _
          rw [decode_some_text directory_node, decode_labels ordered labels_node, pure_bind,
            pure_bind]

theorem decode_selectors {selectors : List Selector}
    (ordered : ∀ selector ∈ selectors, Fields.Ordered selector.labels)
    (h : Presents node (.sequence (selectors.map Selector.toValue))) (anchors : Anchors) :
    (DecodeYaml.decode anchors node : Walk (Option (List Selector))) = pure (some selectors) := by
  obtain ⟨nodes, rfl, hnodes⟩ := exists_sequence_of_presents h
  have hitems := mapM_of_presentItems hnodes fun node selector mem hnode =>
    decode_selector (ordered selector mem) hnode anchors
  change some <$> nodes.mapM (DecodeYaml.decode anchors) = _
  rw [hitems]
  rfl

end Node

theorem Document.finish_pure {α : Type} {document : Document} (h : document.sound = true) (a : α) :
    document.finish (pure a) = .ok a := by
  rw [finish]
  simp only [h]
  rfl

/-- A document is read as the value whose tree it presents. -/
theorem Document.toValue_of_presents {document : Document} {v : Value} (h : document.Presents v)
    (ordered : v.Ordered) (within : v.Within nestingLimit) : document.toValue = .ok v := by
  obtain ⟨sound, root, hroot, hpresents⟩ := h
  have hvalue := Node.toValue_of_presents hpresents document.anchors ordered within
  rw [Document.toValue, hroot]
  dsimp only
  rw [hvalue]
  exact finish_pure sound v

theorem Document.decode_of_presents {document : Document} {selectors : List Selector}
    (h : document.Presents (.sequence (selectors.map Selector.toValue)))
    (ordered : ∀ selector ∈ selectors, Fields.Ordered selector.labels) :
    (document.decode : Except YamlFault (Option (List Selector))) = .ok (some selectors) := by
  obtain ⟨sound, root, hroot, hpresents⟩ := h
  rw [Document.decode, hroot, Option.getD_some, Node.decode_selectors ordered hpresents]
  exact finish_pure sound _

end Yaml

namespace Value

/-- The text that is written for a value presents its tree. -/
def ReadsBack (v : Value) : Prop := (Yaml.Document.parse v.toYamlText.toList).Presents v

theorem ReadsBack.of_parse {v : Value} {root : Yaml.Node}
    (h : Yaml.Document.parse v.toYamlText.toList = ⟨some root, true⟩) (presents : root.Presents v) :
    v.ReadsBack := by
  rw [ReadsBack, h]
  exact ⟨rfl, root, rfl, presents⟩

theorem fromUTF8?_toUTF8 (text : String) : String.fromUTF8? text.toUTF8 = some text := by
  simp only [String.fromUTF8?, String.toUTF8_eq_toByteArray, dif_pos text.isValidUTF8]
  rfl

/-- Bytes are read as the text that they encode. -/
theorem ofYamlBytes_eq_ok {bytes : ByteArray} {v : Value} :
    ofYamlBytes bytes = .ok v ↔
      ∃ text, String.fromUTF8? bytes = some text ∧ ofYamlText text = .ok v := by
  rw [ofYamlBytes, Yaml.Document.ofBytes]
  cases String.fromUTF8? bytes with
  | none =>
    constructor
    · intro h
      cases h
    · rintro ⟨text, h, -⟩
      cases h
  | some text =>
    constructor
    · intro h
      exact ⟨text, rfl, h⟩
    · rintro ⟨_, ⟨⟩, h⟩
      exact h

/-- A value that was written is read. -/
theorem ReadsBack.ofYamlBytes {v : Value} (h : v.ReadsBack) (ordered : v.Ordered)
    (within : v.Within Yaml.nestingLimit) : ofYamlBytes v.toYamlText.toUTF8 = .ok v :=
  ofYamlBytes_eq_ok.2 ⟨_, fromUTF8?_toUTF8 _, Yaml.Document.toValue_of_presents h ordered within⟩

/-- Documents that are read from bytes are in order. -/
theorem ordered_of_ofYamlBytes {bytes : ByteArray} {v : Value}
    (h : Value.ofYamlBytes bytes = .ok v) : v.Ordered := by
  obtain ⟨text, -, htext⟩ := ofYamlBytes_eq_ok.1 h
  exact ordered_of_ofYamlText htext

end Value

/-- Selectors in an ordered document have their labels in order. -/
theorem Selector.ordered_labels {selectors : List Selector}
    (h : (Value.sequence (selectors.map toValue)).Ordered) {selector : Selector}
    (mem : selector ∈ selectors) : Fields.Ordered selector.labels := by
  have hvalue := h.of_mem_items (List.mem_map_of_mem mem)
  cases hlabels : selector.labels with
  | nil => exact List.Pairwise.nil
  | cons label labels =>
    obtain ⟨fields, hfields, hentry⟩ : ∃ fields, selector.toValue = .mapping fields ∧
        (labelsKey, Value.mapping (selector.labels.map fun entry =>
          (entry.1, Value.text entry.2))) ∈ fields := ⟨_, rfl, by simp [hlabels]⟩
    rw [hfields] at hvalue
    have hfields := (hvalue.of_mem hentry).fields
    rw [← hlabels]
    exact (List.pairwise_map (R := fun a b : String × Value => a.1 < b.1)).1 hfields

/-- Selectors that were written are read. -/
theorem Selector.decode_of_readsBack {selectors : List Selector}
    (h : (Value.sequence (selectors.map toValue)).ReadsBack)
    (ordered : (Value.sequence (selectors.map toValue)).Ordered) :
    (Yaml.Document.ofBytes (Value.sequence (selectors.map toValue)).toYamlText.toUTF8).bind
      Yaml.Document.decode = .ok (some selectors) := by
  have hread := Yaml.Document.decode_of_presents h fun selector => ordered_labels ordered
  rw [Yaml.Document.ofBytes, Value.fromUTF8?_toUTF8]
  dsimp only [Except.bind]
  rw [hread]

end DocPath
