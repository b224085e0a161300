import DocPath.Proofs.PathReading
import DocPath.Proofs.Walk

/-!
# Paths one after the other

Joining two paths puts the steps of the one after those of the other. Texts are joined by a dot, for
which the second one gives up the dot that it may begin with: what stands before the joint ends a
segment and what stands after it begins one, so no bracket and no name reaches across. And a walk
can be interrupted at any node, so a joined path leads where its second part leads from the node at
the end of the first.
-/

namespace DocPath

namespace Path

open Grammar

/-! ### Steps -/

theorem join_assoc (p q r : Path) : (p.join q).join r = p.join (q.join r) :=
  Path.ext (List.append_assoc p.steps q.steps r.steps)

/-- A path of two steps or more has a parent, and its last step leads there from that. -/
theorem exists_parent_join {p : Path} (h : 2 ≤ p.length) :
    ∃ parent, p.parent? = some parent ∧ parent.join (.single p.last) = p := by
  have hparent : p.steps.dropLast ≠ [] := by
    have hlength : p.steps.dropLast.length = p.length - 1 := List.length_dropLast
    intro hnil
    rw [hnil, List.length_nil] at hlength
    omega
  exact ⟨⟨p.steps.dropLast, hparent⟩, dif_pos hparent,
    Path.ext (List.dropLast_concat_getLast p.steps_ne_nil)⟩

/-! ### Texts -/

/-- A text without the dot that it may begin with. -/
theorem dropLeadingDot_of_bare {text bare : String}
    (h : text = "." ++ bare ∨ text = bare ∧ bare.toList.head? ≠ some '.') :
    dropLeadingDot text.toList = bare.toList := by
  rcases h with rfl | ⟨rfl, hhead⟩
  · rw [String.toList_append]
    rfl
  · exact dropLeadingDot_of_head hhead

/-- Texts of two paths, with a dot between them, are the text of the joined path. -/
theorem read_append {text other bare : String} {p q : Path} (hp : Path.read text = .ok p)
    (hq : Path.read other = .ok q)
    (hbare : other = "." ++ bare ∨ other = bare ∧ bare.toList.head? ≠ some '.') :
    Path.read (text ++ "." ++ bare) = .ok (p.join q) := by
  obtain ⟨first, rest, firstSteps, more, htext, hsteps, hfirst, hrest⟩ :=
    pathText_iff.1 (read_eq_ok_iff.1 hq)
  rw [dropLeadingDot_of_bare hbare] at htext
  have hjoined := (read_eq_ok_iff.1 hp).append hfirst hrest
  rw [← htext, ← hsteps] at hjoined
  have hlist : (text ++ "." ++ bare).toList = text.toList ++ '.' :: bare.toList := by
    simp [String.toList_append]
  rw [read_eq_ok_iff, hlist]
  exact hjoined

/-! ### Nodes -/

/-- A joined path leads from the node that its first part leads to, if that leads to any. -/
theorem getAt_join (d : Value) (p q : Path) :
    d.getAt (p.join q) = (d.getAt p).bind fun node => node.getAt q :=
  Value.get?_append p.steps q.steps d

/-- Joining paths is putting their texts together with a dot between them, and walking along the
one and then along the other. It is associative, and undoes the parting of a path into its parent
and its last step. -/
theorem join_puts_together :
    (∀ (text other bare : String) (p q : Path),
      Path.read text = .ok p → Path.read other = .ok q →
      (other = "." ++ bare ∨ other = bare ∧ bare.toList.head? ≠ some '.') →
      Path.read (text ++ "." ++ bare) = .ok (p.join q)) ∧
    (∀ p q r : Path, (p.join q).join r = p.join (q.join r)) ∧
    (∀ p : Path, 2 ≤ p.length →
      ∃ parent, p.parent? = some parent ∧ parent.join (.single p.last) = p) ∧
    ∀ (d : Value) (p q : Path),
      (d.getAt p = none → d.getAt (p.join q) = none) ∧
      ∀ node, d.getAt p = some node → d.getAt (p.join q) = node.getAt q := by
  refine ⟨fun _ _ _ _ _ => read_append, join_assoc, fun _ => exists_parent_join,
    fun d p q => ⟨fun hnone => ?_, fun node hnode => ?_⟩⟩
  · rw [getAt_join, hnone, Option.bind_none]
  · rw [getAt_join, hnode, Option.bind_some]

/-- Two texts that each begin with a dot and hold indices, also right at the joint. -/
theorem join_puts_together_indices :
    let p : Path := ⟨[.key "pods", .index 0], List.cons_ne_nil _ _⟩
    let q : Path := ⟨[.index 1, .index 2, .key "ready"], List.cons_ne_nil _ _⟩
    let d : Value := .mapping [("pods", .sequence [.null])]
    (Path.read ".pods[0]" = .ok p ∧ Path.read ".[1][02].ready" = .ok q ∧
      ".[1][02].ready" = "." ++ "[1][02].ready" ∧ 2 ≤ q.length ∧
      d.getAt p = some .null ∧ d.getAt q = none) ∧
    Path.read (".pods[0]" ++ "." ++ "[1][02].ready") = .ok (p.join q) ∧
    (∃ parent, q.parent? = some parent ∧ parent.join (.single q.last) = q) ∧
    d.getAt (p.join q) = Value.getAt .null q ∧ d.getAt (q.join p) = none := by
  intro p q d
  have hp : Path.read ".pods[0]" = .ok p := rfl
  have hq : Path.read ".[1][02].ready" = .ok q := rfl
  have hlength : 2 ≤ q.length := by decide
  obtain ⟨hread, -, hparent, hwalk⟩ := join_puts_together
  exact ⟨⟨hp, hq, rfl, hlength, rfl, rfl⟩, hread _ _ "[1][02].ready" p q hp hq (.inl rfl),
    hparent q hlength, (hwalk d p q).2 .null rfl, (hwalk d q p).1 rfl⟩

end Path

end DocPath
