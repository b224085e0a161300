import DocPath.Document.AccessError
import DocPath.Path.Grammar
import DocPath.Proofs.Outcome

/-!
# What is read as a path

Reading a path scans for dots, then for an opening bracket, then for closing ones. Here that is held
against the grammar, rule by rule and from the inside out: what the scan of indices, of a segment
and of a list of segments accepts is what the grammar derives, and the steps that it answers are
those that the grammar gives. A scan that refuses a text names the whole text in its error.
-/

namespace DocPath

namespace Path

open Grammar

variable {text rest segment : List Char} {steps more : List Step} {position : UInt64}

theorem readPosition_eq_ok : readPosition text = .ok position ↔ Digits text position := by
  have bound : Nat.pow 2 64 = UInt64.size := rfl
  rw [readPosition, bound]
  constructor
  · intro h
    split at h
    · cases h
    · rename_i n hn
      obtain ⟨nonempty, digits, value⟩ := Numeral.natOfDigits?_ten_eq_some.1 hn
      split at h
      · rename_i hlt
        cases h
        exact ⟨nonempty, digits, by rw [value, UInt64.toNat_ofNat_of_lt' hlt]⟩
      · cases h
  · rintro ⟨nonempty, digits, value⟩
    have hlt : position.toNat < UInt64.size := position.toNat_lt_size
    have hn := Numeral.natOfDigits?_ten_eq_some.2 ⟨nonempty, digits, value⟩
    simp only [hn, if_pos hlt, UInt64.ofNat_toNat]

/-! ### Indices -/

/-- What the scan of indices accepts is a list of indices. -/
theorem indices_of_readPositions {fuel : Nat} (h : readPositions segment fuel text = .ok steps) :
    Indices text steps := by
  induction fuel generalizing text steps with
  | zero => cases text with
    | nil =>
      cases h
      exact .nil
    | cons c body => cases h
  | succ fuel ih => cases text with
    | nil =>
      cases h
      exact .nil
    | cons c body =>
      rw [readPositions] at h
      split at h
      · cases h
      rename_i hopen
      obtain rfl : c = '[' := Classical.not_not.1 hopen
      split at h
      · cases h
      rename_i close after hclose
      dsimp only at h
      split at h
      · cases h
      obtain ⟨position, hposition, h⟩ := bind_eq_ok.1 h
      obtain ⟨others, hothers, h⟩ := bind_eq_ok.1 h
      cases h
      obtain ⟨-, hbody⟩ := Text.eq_of_dropWhile_ne hclose
      rw [hbody]
      exact .cons (readPosition_eq_ok.1 hposition) (ih hothers)

/-- A list of indices is scanned if there is fuel for each of its characters. -/
theorem readPositions_of_indices (h : Indices text steps) {fuel : Nat}
    (hfuel : text.length ≤ fuel) : readPositions segment fuel text = .ok steps := by
  induction h generalizing fuel with
  | nil => cases fuel <;> rfl
  | @cons digits rest position steps hdigits _ ih =>
    simp only [List.length_cons, List.length_append] at hfuel
    obtain ⟨fuel, rfl⟩ := Nat.exists_eq_succ_of_ne_zero (by omega : fuel ≠ 0)
    have hrest : rest.length ≤ fuel := by omega
    have hclose : ']' ∉ digits := hdigits.not_mem rfl
    have hopen : digits.contains '[' = false := by
      simpa using hdigits.not_mem (c := '[') rfl
    rw [readPositions, if_neg (by simp), Text.takeWhile_ne_append hclose,
      Text.dropWhile_ne_append hclose]
    simp only [hopen, readPosition_eq_ok.2 hdigits, ih hrest]
    rfl

/-! ### Segments -/

/-- What is read as a segment and holds no dot is one. -/
theorem segment_of_readSegment (h : readSegment text = .ok steps) (hdot : '.' ∉ text) :
    Segment text steps := by
  have hsplit : text.takeWhile (· ≠ '[') ++ text.dropWhile (· ≠ '[') = text :=
    List.takeWhile_append_dropWhile
  rw [readSegment] at h
  split at h
  · cases h
  rename_i hempty
  dsimp only at h
  split at h
  · cases h
  rename_i hclose
  obtain ⟨positions, hpositions, h⟩ := bind_eq_ok.1 h
  have indices := indices_of_readPositions hpositions
  split at h
  · rename_i hname
    cases h
    rw [List.isEmpty_iff.1 hname, List.nil_append] at hsplit
    rw [hsplit] at indices
    exact .bare (by simpa using hempty) indices
  · rename_i hname
    cases h
    have name : Name (text.takeWhile (· ≠ '[')) := by
      refine ⟨by simpa using hname, fun c mem => ⟨?_, ?_, ?_⟩⟩
      · rintro rfl
        exact hdot (hsplit ▸ List.mem_append_left _ mem)
      · rintro rfl
        exact Text.not_mem_takeWhile_ne '[' text mem
      · rintro rfl
        exact hclose (by simpa using mem)
    have segment := Segment.named name indices
    rwa [hsplit] at segment

/-- Where the scan for an opening bracket divides a segment. -/
theorem span_name {name : List Char} (hname : '[' ∉ name) (h : Indices text steps) :
    (name ++ text).takeWhile (· ≠ '[') = name ∧ (name ++ text).dropWhile (· ≠ '[') = text := by
  cases h with
  | nil =>
    have all : ∀ c ∈ name, decide (c ≠ '[') = true :=
      fun c mem => decide_eq_true fun e => hname (e ▸ mem)
    rw [List.takeWhile_append_of_pos all, List.dropWhile_append_of_pos all]
    exact ⟨List.append_nil _, rfl⟩
  | cons _ _ => exact ⟨Text.takeWhile_ne_append hname _, Text.dropWhile_ne_append hname _⟩

theorem readSegment_of_segment (h : Segment text steps) : readSegment text = .ok steps := by
  have nonempty : text.isEmpty = false := by simpa using h.ne_nil
  cases h with
  | @named name rest steps hname hrest =>
    obtain ⟨htake, hdrop⟩ := span_name (hname.not_mem (by simp [IsNameChar])) hrest
    have hclose : name.contains ']' = false := by
      simpa using hname.not_mem (c := ']') (by simp [IsNameChar])
    have hlength : rest.length ≤ (name ++ rest).length := by simp
    simp only [readSegment, nonempty, htake, hdrop, hclose, readPositions_of_indices hrest hlength,
      List.isEmpty_eq_false_iff.2 hname.ne_nil]
    rfl
  | bare _ hrest =>
    obtain ⟨htake, hdrop⟩ := span_name List.not_mem_nil hrest
    rw [List.nil_append] at htake hdrop
    simp only [readSegment, nonempty, htake, hdrop, readPositions_of_indices hrest (Nat.le_refl _)]
    rfl

/-- What is read between dots is a segment and more segments. -/
theorem segments_of_readSegments (h : readSegments (Text.pieces '.' text) = .ok steps) :
    ∃ first rest firstSteps more, text = first ++ rest ∧ steps = firstSteps ++ more ∧
      Segment first firstSteps ∧ Segments rest more := by
  -- each further segment is read from what follows the first dot, and that is a shorter text
  induction hn : text.length using Nat.strongRecOn generalizing text steps with
  | ind n ih =>
    by_cases hdot : '.' ∈ text
    · obtain ⟨first, after, rfl, hfirst⟩ := List.eq_append_cons_of_mem hdot
      rw [Text.pieces_append hfirst, readSegments] at h
      obtain ⟨firstSteps, hsegment, h⟩ := bind_eq_ok.1 h
      obtain ⟨others, hothers, h⟩ := bind_eq_ok.1 h
      cases h
      have shorter : after.length < n := by
        rw [← hn, List.length_append, List.length_cons]
        omega
      obtain ⟨second, rest, secondSteps, more, rfl, rfl, hsecond, hrest⟩ :=
        ih _ shorter hothers rfl
      exact ⟨first, _, firstSteps, _, rfl, rfl, segment_of_readSegment hsegment hfirst,
        .cons hsecond hrest⟩
    · rw [Text.pieces_of_not_mem hdot, readSegments] at h
      obtain ⟨firstSteps, hsegment, h⟩ := bind_eq_ok.1 h
      cases h
      exact ⟨text, [], firstSteps, [], (List.append_nil _).symm, rfl,
        segment_of_readSegment hsegment hdot, .nil⟩

theorem readSegments_of_segments (hfirst : Segment text steps) (hrest : Segments rest more) :
    readSegments (Text.pieces '.' (text ++ rest)) = .ok (steps ++ more) := by
  induction hrest generalizing text steps with
  | nil =>
    rw [List.append_nil, Text.pieces_of_not_mem hfirst.dot_not_mem, readSegments,
      readSegment_of_segment hfirst]
    rfl
  | cons hsecond _ ih =>
    rw [Text.pieces_append hfirst.dot_not_mem, readSegments, readSegment_of_segment hfirst,
      ih hsecond]
    rfl

/-! ### Whole paths -/

theorem dropLeadingDot_of_head (h : text.head? ≠ some '.') : dropLeadingDot text = text := by
  unfold dropLeadingDot
  split
  · exact absurd rfl h
  · rfl

/-- What is left of a path after its optional dot. -/
theorem pathText_iff : PathText text steps ↔ ∃ first rest firstSteps more,
    dropLeadingDot text = first ++ rest ∧ steps = firstSteps ++ more ∧
      Segment first firstSteps ∧ Segments rest more := by
  constructor
  · rintro (⟨hfirst, hrest⟩ | ⟨hfirst, hrest⟩)
    · exact ⟨_, _, _, _, dropLeadingDot_of_head (dot_not_head hfirst), rfl, hfirst, hrest⟩
    · exact ⟨_, _, _, _, rfl, rfl, hfirst, hrest⟩
  · rintro ⟨first, rest, firstSteps, more, htext, rfl, hfirst, hrest⟩
    unfold dropLeadingDot at htext
    split at htext
    · rw [htext]
      exact .dotted hfirst hrest
    · rw [htext]
      exact .plain hfirst hrest

theorem ofSteps?_eq_some {p : Path} : ofSteps? steps = some p ↔ p.steps = steps := by
  obtain ⟨list, nonempty⟩ := p
  rw [ofSteps?]
  constructor
  · intro h
    split at h
    · cases h
      rfl
    · cases h
  · rintro rfl
    exact dif_pos nonempty

/-- A path is read from a text just if the grammar derives its steps. -/
theorem parse_eq_ok {input : String} {p : Path} :
    parse input = .ok p ↔ PathText input.toList p.steps := by
  rw [pathText_iff, parse]
  constructor
  · intro h
    split at h
    · cases h
    dsimp only at h
    split at h
    · cases h
    obtain ⟨steps, hsteps, h⟩ := bind_eq_ok.1 h
    split at h
    · rename_i q hq
      cases h
      rw [ofSteps?_eq_some.1 hq]
      exact segments_of_readSegments hsteps
    · cases h
  · rintro ⟨first, rest, firstSteps, more, htext, hsteps, hfirst, hrest⟩
    have hbody : dropLeadingDot input.toList ≠ [] := by
      rw [htext]
      exact List.append_ne_nil_of_left_ne_nil hfirst.ne_nil _
    have hinput : input.toList ≠ [] := by
      intro e
      rw [e] at hbody
      exact hbody rfl
    have hread := readSegments_of_segments hfirst hrest
    rw [← htext, ← hsteps] at hread
    simp only [List.isEmpty_iff, if_neg hinput, if_neg hbody]
    refine bind_eq_ok.2 ⟨p.steps, hread, ?_⟩
    rw [ofSteps?_eq_some.2 rfl]
    rfl

theorem read_eq_ok_iff {input : String} {p : Path} :
    Path.read input = .ok p ↔ PathText input.toList p.steps :=
  Path.read_eq_ok.trans parse_eq_ok

/-- The optional dot makes no difference to a text that does not begin with one. -/
theorem pathText_dot_cons (h : text.head? ≠ some '.') :
    PathText ('.' :: text) steps ↔ PathText text steps := by
  rw [pathText_iff, pathText_iff, dropLeadingDot_of_head h]
  rfl

/-- Reading accepts the texts of the grammar and no others, and answers with the steps that the
grammar gives. Any other text ends in an error that names this text. A dot in front of a text that
has none there changes nothing. -/
theorem read_accepts_grammar (input : String) :
    (∀ p, Path.read input = .ok p ↔ PathText input.toList p.steps) ∧
    ((∃ p, Path.read input = .ok p) ↔ ∃ steps, PathText input.toList steps) ∧
    ((∃ p, Path.read input = .ok p) ∨
      ∃ fault, Path.read input = .error (.invalidPath input fault)) ∧
    (input.toList.head? ≠ some '.' →
      ∀ p, Path.read ("." ++ input) = .ok p ↔ Path.read input = .ok p) := by
  refine ⟨fun p => read_eq_ok_iff, ⟨?_, ?_⟩, Path.read_ok_or_invalidPath input, ?_⟩
  · rintro ⟨p, hp⟩
    exact ⟨p.steps, read_eq_ok_iff.1 hp⟩
  · rintro ⟨steps, h⟩
    exact ⟨⟨steps, h.steps_ne_nil⟩, read_eq_ok_iff.2 h⟩
  · intro hdot p
    have hlist : ("." ++ input).toList = '.' :: input.toList := by rw [String.toList_append]; rfl
    rw [read_eq_ok_iff, read_eq_ok_iff, hlist, pathText_dot_cons hdot]

/-- A path with leading zeros in an index, and the same with a dot in front. -/
theorem read_accepts_grammar_leading_zeros :
    let p : Path := ⟨[.key "pods", .index 7, .key "ready"], List.cons_ne_nil _ _⟩
    "pods[007].ready".toList.head? ≠ some '.' ∧ Path.read "pods[007].ready" = .ok p ∧
      Path.read ("." ++ "pods[007].ready") = .ok p := by
  intro p
  have hdot : "pods[007].ready".toList.head? ≠ some '.' := by decide
  have hread : Path.read "pods[007].ready" = .ok p := rfl
  exact ⟨hdot, hread, ((read_accepts_grammar "pods[007].ready").2.2.2 hdot p).2 hread⟩

end Path

end DocPath
