import Mathlib
import DocPath.Proofs.IntegerNumerals
import DocPath.Proofs.JsonPlaces
import DocPath.Proofs.YamlPlaces

/-!
# Integers in documents

An integer in decimal stands for itself wherever a value may stand: in JSON always, and in YAML if
it is not one of those that 128 bits hold and 64 bits do not. Those are refused, though larger ones
are not (`Value.ofYamlText_wide`).
-/

namespace DocPath

open Yaml (Document Node IsWide)

/-- An integer in decimal is an atom, and the value of that is the integer. -/
theorem Json.exists_spells_integer {n : Int} {k : Nat} (hk : k = 308) (h : n.natAbs ≤ 10 ^ k) :
    ∃ a, Spells (toString n) a ∧ a.toValue.IsInteger n := by
  obtain ⟨a, ha, hinteger⟩ := exists_number?_integer hk h
  refine ⟨a, fun more ends => ?_, hinteger⟩
  rw [toList_toString]
  exact readToken?_integer ends ha

namespace Value

/-- Where null may stand in a JSON text an integer may, and is read as what it is: at the paths at
which null gives null and true gives true. -/
theorem exists_ofJsonText?_integer {n : Int} {k : Nat} (hk : k = 308) (h : n.natAbs ≤ 10 ^ k)
    {before after : String} {v : Value} (hbefore : (Json.lex before.toList).isSome)
    (hv : ofJsonText? (before ++ "null" ++ after) = some v) :
    ∃ x b, ofJsonText? (before ++ toString n ++ after) = some x ∧
      ofJsonText? (before ++ "true" ++ after) = some b ∧
      ∀ p, v.get? p = some .null → b.get? p = some (.bool true) →
        ∃ w, x.get? p = some w ∧ w.IsInteger n := by
  obtain ⟨a, hspells, hinteger⟩ := Json.exists_spells_integer hk h
  obtain ⟨F, hfollows, rfl, htexts⟩ := exists_follows_ofJsonText? hbefore hv
  refine ⟨F a, F (.bool true), htexts _ a hspells, htexts "true" _ fun _ _ => rfl, ?_⟩
  exact fun p hnull htrue => ⟨a.toValue, hfollows p hnull htrue a, hinteger⟩

/-- An integer of at most 308 digits, and `10 ^ 308`, in decimal. In a YAML document it is read as
what it is wherever it stands for a value, and the document is read if it is with null in its place
and the integer is not wide. In a JSON text it is read wherever null may stand. -/
theorem integer_in_decimal {n : Int} (h : n.natAbs ≤ 10 ^ 308) :
    (∀ text v p anchor, ofYamlText text = .ok v →
      (Document.parse text.toList).at? p = some (.scalar ⟨anchor, none⟩ true (toString n)) →
      ∃ w, v.get? p = some w ∧ w.IsInteger n) ∧
    (∀ text bare, Document.parse bare.toList = (Document.parse text.toList).withNull n →
      ((∃ v, ofYamlText text = .ok v) ↔ (∃ v, ofYamlText bare = .ok v) ∧
        (IsWide n → Document.parse bare.toList = Document.parse text.toList))) ∧
    (∀ before after v, (Json.lex before.toList).isSome →
      ofJsonText? (before ++ "null" ++ after) = some v →
      ∃ x b, ofJsonText? (before ++ toString n ++ after) = some x ∧
        ofJsonText? (before ++ "true" ++ after) = some b ∧
        ∀ p, v.get? p = some .null → b.get? p = some (.bool true) →
          ∃ w, x.get? p = some w ∧ w.IsInteger n) := by
  refine ⟨fun text v p anchor hv hp => Document.isInteger_of_toValue rfl h hv hp, ?_, ?_⟩
  · intro text bare hbare
    rw [ofYamlText, ofYamlText, hbare]
    exact Document.exists_toValue_iff_withNull rfl h
  · exact fun before after v hbefore hv => exists_ofJsonText?_integer rfl h hbefore hv

/-- The least integer that takes all of 64 bits, in a sequence. -/
theorem integer_in_decimal_unsigned :
    let n : Int := 9223372036854775808
    n.natAbs ≤ 10 ^ 308 ∧
    (∃ v w, ofYamlText "a: [9223372036854775808]" = .ok v ∧
      v.get? [.key "a", .index 0] = some w ∧ w.IsInteger n) ∧
    ∃ x w, ofJsonText? "[9223372036854775808]" = some x ∧
      x.get? [.index 0] = some w ∧ w.IsInteger n := by
  intro n
  have hn : n.natAbs ≤ 10 ^ 308 :=
    le_trans (by decide : n.natAbs ≤ 10 ^ 19) (pow_le_pow_right₀ (by decide) (by decide))
  obtain ⟨hread, haccepted, hjson⟩ := integer_in_decimal hn
  refine ⟨hn, ?_, ?_⟩
  · have hparse : Document.parse "a: [9223372036854775808]".toList = ⟨some (.mapping .none
      [(.scalar .none true "a", .sequence .none [.scalar .none true (toString n)])]), true⟩ := by
      cbv
    have hbare : Document.parse "a: [null]".toList = ⟨some (.mapping .none
      [(.scalar .none true "a", .sequence .none [.scalar .none true "null"])]), true⟩ := by cbv
    have hsame : Document.parse "a: [null]".toList =
        (Document.parse "a: [9223372036854775808]".toList).withNull n := by
      rw [hparse, hbare]
      rfl
    have hnull : ofYamlText "a: [null]" = .ok (.mapping [("a", .sequence [.null])]) := by
      rw [ofYamlText, hbare]
      cbv
    have narrow : ¬IsWide n := by simp [IsWide, n]
    have hplace : (Document.parse "a: [9223372036854775808]".toList).at? [.key "a", .index 0] =
        some (.scalar .none true (toString n)) := by
      rw [hparse]
      cbv
    obtain ⟨v, hv⟩ := (haccepted _ _ hsame).2 ⟨⟨_, hnull⟩, fun hwide => absurd hwide narrow⟩
    obtain ⟨w, hw, hinteger⟩ := hread _ v _ none hv hplace
    exact ⟨v, w, hv, hw, hinteger⟩
  · obtain ⟨x, b, hx, hb, hpaths⟩ := hjson "[" "]" (.sequence [.null]) rfl rfl
    obtain rfl : .sequence [.bool true] = b := Option.some.inj hb
    obtain ⟨w, hw, hinteger⟩ := hpaths [.index 0] rfl rfl
    exact ⟨x, w, hx, hw, hinteger⟩

/-- A wide integer is refused, though null in its place is not. -/
theorem ofYamlText_wide :
    (18446744073709551616 : Int).natAbs ≤ 10 ^ 308 ∧
    ofYamlText "null" = .ok .null ∧
    ofYamlText "18446744073709551616" = .error (.unfit .value) := by
  have hparse : Document.parse "18446744073709551616".toList =
    ⟨some (.scalar ⟨none, none⟩ true (toString (18446744073709551616 : Int))), true⟩ := by cbv
  have hwide : IsWide 18446744073709551616 := .inr ⟨by decide, by decide⟩
  refine ⟨le_trans (by decide : _ ≤ 10 ^ 20) (pow_le_pow_right₀ (by decide) (by decide)), ?_, ?_⟩
  · cbv
  · rw [ofYamlText, hparse, Document.toValue_of_root rfl, Node.toValue_of_scalar,
      Node.scalarValue_of_isWide hwide]
    exact Document.finish_of_error rfl

end Value

end DocPath
