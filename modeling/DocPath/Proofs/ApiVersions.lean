import DocPath.Resource.Basic
import DocPath.Text.Pieces

/-!
# API versions as texts

An API version is split at its first slash and joined with one, and the empty group is not written.
So a text that is split and joined again comes back unless it begins with a slash, which goes with
the group that is not written. And a group and a version that are joined are found again if the
first slash is the one that was put between them, or if there is none.
-/

namespace DocPath

namespace GroupVersionKind

open Text

variable {group version text : String}

theorem toList_append_slash (group version : String) :
    (group ++ "/" ++ version).toList = group.toList ++ '/' :: version.toList := by
  rw [String.toList_append, String.toList_append, List.append_assoc]
  rfl

/-- A text without a slash is a version of the core group. -/
theorem ofApiVersion_of_not_mem (h : '/' ∉ text.toList) (kind : String) :
    ofApiVersion text kind = ⟨"", text, kind⟩ := by
  have hne : ∀ c ∈ text.toList, decide (c ≠ '/') = true := by
    intro c hc
    exact decide_eq_true fun e => h (e ▸ hc)
  have hnone : text.toList.dropWhile (· ≠ '/') = [] := by
    rw [← List.append_nil text.toList, List.dropWhile_append_of_pos hne, List.dropWhile_nil]
  rw [ofApiVersion, hnone]

/-- What stands before the first slash is the group, and what stands after it the version. -/
theorem ofApiVersion_append_slash (h : '/' ∉ group.toList) (version kind : String) :
    ofApiVersion (group ++ "/" ++ version) kind = ⟨group, version, kind⟩ := by
  rw [ofApiVersion, toList_append_slash, dropWhile_ne_append h, takeWhile_ne_append h]
  dsimp only
  rw [String.ofList_toList, String.ofList_toList]

/-- A text with a slash can be divided at the first one. -/
theorem exists_append_slash (h : '/' ∈ text.toList) :
    ∃ group version, '/' ∉ group.toList ∧ text = group ++ "/" ++ version := by
  obtain ⟨group, version, htext, hgroup⟩ := List.eq_append_cons_of_mem h
  refine ⟨String.ofList group, String.ofList version, ?_, ?_⟩
  · rwa [String.toList_ofList]
  · rw [← String.toList_inj, toList_append_slash, String.toList_ofList, String.toList_ofList, htext]

/-- A part of a text that was joined is not the whole text. -/
theorem ne_append_slash (group version : String) :
    group ≠ group ++ "/" ++ version ∧ version ≠ group ++ "/" ++ version := by
  have hlength : (group ++ "/" ++ version).toList.length =
      group.toList.length + (version.toList.length + 1) := by
    rw [toList_append_slash, List.length_append, List.length_cons]
  constructor
  all_goals
    intro h
    rw [← h] at hlength
    omega

theorem apiVersion_of_ne (h : group ≠ "") (version kind : String) :
    (mk group version kind).apiVersion = group ++ "/" ++ version := by
  rw [apiVersion, if_neg (by simpa using h)]

theorem apiVersion_core (version kind : String) : (mk "" version kind).apiVersion = version := rfl

/-- Splitting and joining gives a text back unless it begins with a slash. -/
theorem apiVersion_ofApiVersion (text kind : String) :
    (ofApiVersion text kind).apiVersion = text ↔ text.toList.head? ≠ some '/' := by
  by_cases hmem : '/' ∈ text.toList
  · obtain ⟨group, version, hgroup, rfl⟩ := exists_append_slash hmem
    rw [ofApiVersion_append_slash hgroup, toList_append_slash]
    by_cases hempty : group = ""
    · rw [hempty, apiVersion_core]
      exact iff_of_false (ne_append_slash "" version).2 fun h => h rfl
    · rw [apiVersion_of_ne hempty]
      obtain ⟨c, rest, hcons⟩ := List.exists_cons_of_ne_nil (mt String.toList_eq_nil_iff.1 hempty)
      rw [hcons] at hgroup ⊢
      refine iff_of_true rfl fun hhead => hgroup ?_
      rw [Option.some.inj hhead]
      exact List.mem_cons_self
  · rw [ofApiVersion_of_not_mem hmem, apiVersion_core]
    exact iff_of_true rfl fun hhead => hmem (List.mem_of_head? hhead)

/-- Joining and splitting gives a group and a version back if the first slash is the joint. -/
theorem ofApiVersion_apiVersion (group version kind : String) :
    ofApiVersion (mk group version kind).apiVersion kind = mk group version kind ↔
      '/' ∉ group.toList ∧ (group ≠ "" ∨ '/' ∉ version.toList) := by
  by_cases hempty : group = ""
  · rw [hempty, apiVersion_core]
    by_cases hmem : '/' ∈ version.toList
    · obtain ⟨first, second, hfirst, rfl⟩ := exists_append_slash hmem
      rw [ofApiVersion_append_slash hfirst]
      refine iff_of_false (fun h => ?_) fun h => h.2.elim (fun hne => hne rfl) fun hnot => hnot hmem
      exact (ne_append_slash first second).2 (congrArg GroupVersionKind.version h)
    · exact iff_of_true (ofApiVersion_of_not_mem hmem kind) ⟨List.not_mem_nil, .inr hmem⟩
  · rw [apiVersion_of_ne hempty]
    by_cases hmem : '/' ∈ group.toList
    · obtain ⟨first, second, hfirst, rfl⟩ := exists_append_slash hmem
      have hassoc : first ++ "/" ++ second ++ "/" ++ version =
          first ++ "/" ++ (second ++ "/" ++ version) := by
        simp only [String.append_assoc]
      rw [hassoc, ofApiVersion_append_slash hfirst]
      refine iff_of_false (fun h => ?_) fun h => h.1 hmem
      exact (ne_append_slash first second).1 (congrArg GroupVersionKind.group h)
    · exact iff_of_true (ofApiVersion_append_slash hmem version kind) ⟨hmem, .inl hempty⟩

/-- An API version that is split and joined comes back exactly if it does not begin with a slash,
and so a resource has the one that its object says. A group and a version that are joined and split
come back exactly if the group has no slash and, where it is empty, the version has none either. -/
theorem apiVersion_split_iff (text group version kind : String) (object : Value) :
    ((ofApiVersion text kind).apiVersion = text ↔ text.toList.head? ≠ some '/') ∧
    (ofApiVersion (mk group version kind).apiVersion kind = mk group version kind ↔
      '/' ∉ group.toList ∧ (group ≠ "" ∨ '/' ∉ version.toList)) ∧
    (∀ resource, Resource.ofValue object = .ok resource →
      object.get? [.key "apiVersion"] = some (.text text) → text.toList.head? ≠ some '/' →
      resource.identity.gvk.apiVersion = text) := by
  refine ⟨apiVersion_ofApiVersion text kind, ofApiVersion_apiVersion group version kind, ?_⟩
  intro resource hresource hobject hhead
  have hidentity : resource.identity = .ofObject object := by
    rw [Resource.ofValue] at hresource
    split at hresource
    · cases hresource
      rfl
    · cases hresource
  have htext : Identity.textUnder ["apiVersion"] object = text := by
    rw [Identity.textUnder, Identity.under]
    simp only [List.map_cons, List.map_nil, hobject]
    rfl
  rw [hidentity, Identity.ofObject, htext]
  exact (apiVersion_ofApiVersion text _).2 hhead

end GroupVersionKind

end DocPath
