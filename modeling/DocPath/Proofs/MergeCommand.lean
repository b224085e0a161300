import DocPath.Proofs.CommandSteps
import DocPath.Proofs.DeepMerge

/-!
# Merging, in the library and from the command line

However two mappings are merged, it is the same merge: as mappings, as values, and by the command
that reads them from files, where what is read is in order already.
-/

namespace DocPath

namespace Cli

/-- Merging two documents prints the merge and does nothing else. -/
theorem run_merge (format : Format) {target source : String} {session first second : Session}
    {existing incoming : Value}
    (htarget : (readDocument target : Action (StateM Session) Value).run.run session =
      (.ok existing, first))
    (hsource : (readDocument source : Action (StateM Session) Value).run.run first =
      (.ok incoming, second)) :
    ((Command.merge target source).run format : Action (StateM Session) Unit).run.run session =
      (.ok (), { second with
        output := session.output ++ format.render (existing.merge incoming) }) ∧
      second.files = session.files := by
  have hfirst := quiet_readDocument target session
  have hsecond := quiet_readDocument source first
  rw [htarget] at hfirst
  rw [hsource] at hsecond
  refine ⟨?_, hsecond.1.trans hfirst.1⟩
  have houtput : second.output = session.output := hsecond.2.trans hfirst.2
  rw [← houtput]
  exact run_bind_eq_ok.2 ⟨existing, first, htarget,
    run_bind_eq_ok.2 ⟨incoming, second, hsource, rfl⟩⟩

end Cli

open Cli

/-- A merge of two mappings reads along keys as the two sides do, at every depth; merging them as
values comes to the same, and so does the command that merges two files, which prints the merge and
leaves all files alone. -/
theorem merge_along_keys :
    (∀ d s : Fields Value, Value.Ordered (.mapping s) →
      Fields.MergedAlong d s (Fields.merge d s)) ∧
    (∀ d s : Fields Value,
      Value.merge (.mapping d) (.mapping s) = .mapping (Fields.merge d s)) ∧
    (∀ (format : Format) (target source : String) (session first second : Session)
      (d s : Fields Value),
      (readDocument target : Action (StateM Session) Value).run.run session =
        (.ok (.mapping d), first) →
      (readDocument source : Action (StateM Session) Value).run.run first =
        (.ok (.mapping s), second) →
      Fields.MergedAlong d s (Fields.merge d s) ∧
        ((Command.merge target source).run format : Action (StateM Session) Unit).run.run session =
          (.ok (), { second with
            output := session.output ++ format.render (.mapping (Fields.merge d s)) }) ∧
        second.files = session.files) := by
  refine ⟨fun d s ordered => Fields.mergedAlong_merge ordered d, Value.merge_mapping_mapping, ?_⟩
  intro format target source session first second d s htarget hsource
  have hrun := run_merge format htarget hsource
  rw [Value.merge_mapping_mapping] at hrun
  exact ⟨Fields.mergedAlong_merge (ordered_of_readDocument hsource) d, hrun⟩

/-- A merge that puts a mapping in place of a number, one level down; and a merge of an empty file
into an empty input. -/
theorem merge_along_keys_nested :
    let d : Fields Value := [("a", .mapping [("k", .int 5), ("x", .int 1)])]
    let s : Fields Value := [("a", .mapping [("k", .mapping [("z", .null)])]), ("l", .int 3)]
    let session : Session := ⟨⟨[], [(["s"], .file "\x7b\x7d".toUTF8)]⟩, "\x7b\x7d".toUTF8, ""⟩
    let drained : Session := { session with input := .empty }
    (Value.Ordered (.mapping s) ∧
      Identity.under ["a", "k"] (.mapping (Fields.merge d s)) = some (.mapping [("z", .null)]) ∧
      Identity.under ["a", "k", "z"] (.mapping (Fields.merge d s)) = some .null ∧
      Identity.under ["l", "m"] (.mapping (Fields.merge d s)) = none) ∧
    (readDocument "-" : Action (StateM Session) Value).run.run session =
      (.ok (.mapping []), drained) ∧
    (readDocument "s" : Action (StateM Session) Value).run.run drained =
      (.ok (.mapping []), drained) ∧
    ((Command.merge "-" "s").run .yaml : Action (StateM Session) Unit).run.run session =
      (.ok (), { drained with
        output := session.output ++ Format.yaml.render (.mapping (Fields.merge [] [])) }) := by
  intro d s session drained
  have ordered : Value.Ordered (.mapping s) := by
    have hz : Value.Ordered (.mapping [("z", .null)]) :=
      .mapping (List.pairwise_singleton _ _) (by simpa using Value.Ordered.scalar (v := .null) rfl)
    have hk : Value.Ordered (.mapping [("k", .mapping [("z", .null)])]) :=
      .mapping (List.pairwise_singleton _ _) (by simpa using hz)
    refine .mapping ?_ ?_
    · exact List.pairwise_pair.2 (by decide)
    · simpa [s] using ⟨hk, Value.Ordered.scalar rfl⟩
  have law := merge_along_keys.1 d s ordered
  have first : (readDocument "-" : Action (StateM Session) Value).run.run session =
      (.ok (.mapping []), drained) := by
    dsimp only [session, drained]
    rfl
  have second : (readDocument "s" : Action (StateM Session) Value).run.run drained =
      (.ok (.mapping []), drained) := rfl
  refine ⟨⟨ordered, ?_, ?_, ?_⟩, first, second, ?_⟩
  · refine law.added ["a", "k"] _ rfl ?_
    intro old h
    cases h
  · exact law.replaced ["a", "k", "z"] .null rfl rfl
  · exact law.below ["l", "m"] ["l"] (.int 3) (by decide) (by decide) rfl rfl
  · exact (merge_along_keys.2.2 .yaml "-" "s" session drained drained [] [] first second).2.1

end DocPath
