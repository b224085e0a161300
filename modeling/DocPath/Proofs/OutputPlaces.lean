import DocPath.Proofs.PathComponents
import DocPath.Proofs.PipelineSteps

/-!
# Where output goes

A path of output is refused, before anything is touched, if it names nothing, is absolute or goes up
anywhere (`FilePath.Escapes`). Any other path has names only, apart from what does not count, so it
leads from the output directory down along these names, and that is where the file is written,
whatever the path looks like. Directories are made on the way there at most, also where the write is
refused in the end.
-/

namespace DocPath

/-- A path that names nothing, or that could lead out of the directory where it starts. -/
def FilePath.Escapes (path : String) : Prop :=
  components path = [] ∨ isAbsolute path = true ∨ .above ∈ components path

instance (path : String) : Decidable (FilePath.Escapes path) :=
  inferInstanceAs (Decidable (_ ∨ _ ∨ _))

namespace Pipeline

variable {pipeline : Pipeline} {path : String} {home place : Place}

/-! ### Paths that stay inside -/

theorem staysInside_iff : staysInside path = true ↔ ¬FilePath.Escapes path := by
  have hplain : (FilePath.components path).all Component.isPlain = true ↔
      .root ∉ FilePath.components path ∧ .above ∉ FilePath.components path := by
    rw [List.all_eq_true]
    constructor
    · intro h
      exact ⟨fun mem => Bool.false_ne_true (h _ mem), fun mem => Bool.false_ne_true (h _ mem)⟩
    · rintro ⟨hroot, habove⟩ (_ | _ | _ | _) mem
      · exact absurd mem hroot
      · rfl
      · exact absurd mem habove
      · rfl
  have hempty : (!(FilePath.components path).isEmpty) = true ↔ FilePath.components path ≠ [] := by
    simp
  rw [staysInside, Bool.and_eq_true, hplain, hempty, FilePath.root_mem_components, FilePath.Escapes]
  simp only [not_or]

/-- A path that stays inside is relative and never goes up. -/
theorem of_staysInside (h : staysInside path = true) :
    FilePath.isAbsolute path = false ∧ ".." ∉ FilePath.pieces path := by
  obtain ⟨-, habsolute, habove⟩ := by
    simpa only [FilePath.Escapes, not_or] using staysInside_iff.1 h
  exact ⟨Bool.eq_false_iff.2 habsolute, mt FilePath.above_mem_components.2 habove⟩

/-- Output goes down from the output directory, by the names in its path. -/
theorem placeOf_output (pipeline : Pipeline) (h : staysInside path = true) (home : Place) :
    Files.placeOf home (FilePath.join pipeline.outputDir path) =
      Files.placeOf home pipeline.outputDir ++ FilePath.names path := by
  obtain ⟨relative, habove⟩ := of_staysInside h
  rw [Files.placeOf_join home _ relative, Files.follow_eq_append habove,
    FilePath.names_eq relative habove]

/-- The directories that output at a path may need: the output directory and those on the way to it,
and those on the way from it to the file. -/
def Needs (pipeline : Pipeline) (home : Place) (path : String) (place : Place) : Prop :=
  (∃ before, before <+: FilePath.pieces pipeline.outputDir ∧
    place = Files.follow (FilePath.startOf home pipeline.outputDir) before) ∨
  ∃ count < (FilePath.names path).length,
    place = Files.placeOf home pipeline.outputDir ++ (FilePath.names path).take count

theorem needs_of_onTheWay (h : staysInside path = true)
    (hplace : Files.OnTheWay home (FilePath.join pipeline.outputDir path) place) :
    pipeline.Needs home path place := by
  obtain ⟨relative, habove⟩ := of_staysInside h
  obtain ⟨parent, hparent, directory, mem, rfl⟩ := hplace
  obtain ⟨before, after, hpieces, hcounts, hplace⟩ :=
    FilePath.exists_of_mem_lineage_parent home hparent mem
  obtain ⟨base, idle, hbase, hidle, hjoined, -⟩ :=
    FilePath.exists_pieces_join pipeline.outputDir relative
  rw [hplace, FilePath.startOf, FilePath.isAbsolute_join _ relative, ← FilePath.startOf]
  rcases List.append_eq_append_iff.1 (hpieces.symm.trans hjoined) with
    ⟨more, hbefore, -⟩ | ⟨more, hbefore, hafter⟩
  · -- the directory is on the way to the output directory
    refine .inl ⟨before, ?_, rfl⟩
    rw [hbase, hbefore, List.append_assoc]
    exact List.prefix_append before _
  · -- the directory lies in the output directory
    have houtput : Files.follow (FilePath.startOf home pipeline.outputDir) base =
        Files.placeOf home pipeline.outputDir := by
      rw [Files.placeOf, hbase, Files.follow_append, Files.follow_of_empty hidle]
      rfl
    have hmore : ".." ∉ more := by
      rw [hafter] at habove
      exact mt (List.mem_append_left after) habove
    have hnames : FilePath.names path = (more.filter fun piece => !FilePath.isIdle piece) ++
        after.filter fun piece => !FilePath.isIdle piece := by
      rw [FilePath.names_eq relative habove, hafter, List.filter_append]
    obtain ⟨piece, hpiece, hcounts⟩ := hcounts
    have hlater : (after.filter fun piece => !FilePath.isIdle piece) ≠ [] :=
      List.ne_nil_of_mem (List.mem_filter.2 ⟨hpiece, by simp [hcounts]⟩)
    refine .inr ⟨(more.filter fun piece => !FilePath.isIdle piece).length, ?_, ?_⟩
    · rw [hnames, List.length_append]
      exact Nat.lt_add_of_pos_right (List.length_pos_iff.2 hlater)
    · rw [hbefore, Files.follow_append, houtput, Files.follow_eq_append hmore, hnames,
        List.take_left]

/-! ### Writing output -/

/-- What becomes of files when output is written: the file is there, or it could not be written. No
place is other than before but that of the file, and those where a directory was missing on the way
to it. -/
structure Wrote (pipeline : Pipeline) (path : String) (content : ByteArray) (before : Files)
    (outcome : Except Failure Unit) (after : Files) : Prop where
  result : outcome = .ok () ∧
      after.read (FilePath.join pipeline.outputDir path) = .ok content ∨
    ∃ fault, outcome =
      .error (.pipeline (.unwritable (FilePath.join pipeline.outputDir path) fault))
  home : after.home = before.home
  place : Files.placeOf before.home (FilePath.join pipeline.outputDir path) =
    Files.placeOf before.home pipeline.outputDir ++ FilePath.names path
  entries : ∀ place, after.get? place = before.get? place ∨
    (before.get? place = none ∧ after.get? place = some .directory ∧
      pipeline.Needs before.home path place) ∨
    (outcome = .ok () ∧ before.get? place ≠ some .directory ∧
      place = Files.placeOf before.home pipeline.outputDir ++ FilePath.names path ∧
      after.get? place = some (.file content))
  /-- Whatever could be read elsewhere can be read as before; if the write was refused, anywhere. -/
  reads : ∀ other bytes, (outcome = .ok () → Files.placeOf before.home other ≠
      Files.placeOf before.home pipeline.outputDir ++ FilePath.names path) →
    before.read other = .ok bytes → after.read other = .ok bytes

theorem wrote_of_staysInside (pipeline : Pipeline) (h : staysInside path = true)
    (content : ByteArray) (files : Files) : ∃ outcome left,
      (pipeline.writeOutput path content : ExceptT Failure (StateM Files) Unit).run.run files =
        (outcome, left) ∧ pipeline.Wrote path content files outcome left := by
  have htarget := placeOf_output pipeline h files.home
  have hneeds {made : Files} (hmade : Files.Made
      (Files.OnTheWay files.home (FilePath.join pipeline.outputDir path)) files made) :=
    hmade.mono fun place => needs_of_onTheWay h
  rw [writeOutput, if_pos h]
  rcases Files.writeFile_cases (FilePath.join pipeline.outputDir path) content files with
    ⟨made, left, hmade, hwrite, hrun⟩ | ⟨fault, left, hmade, hrun⟩
  · refine ⟨_, _, hrun, ?_⟩
    have hmade := hneeds hmade
    have hkept := Files.kept_of_write hwrite
    obtain ⟨hroot, hfree, hleft, hread⟩ := Files.of_write hwrite
    rw [hmade.home, htarget] at hroot hfree hleft hkept
    refine ⟨.inl ⟨rfl, hread⟩, hkept.home.trans hmade.home, htarget, fun place => ?_, ?_⟩
    · by_cases hplace : place = Files.placeOf files.home pipeline.outputDir ++ FilePath.names path
      · subst hplace
        refine .inr (.inr ⟨rfl, ?_, rfl, ?_⟩)
        · rcases hmade.entries (Files.placeOf files.home pipeline.outputDir ++ FilePath.names path)
            with hsame | ⟨hnone, -, -⟩
          · rwa [← hsame]
          · rw [hnone]
            rintro ⟨⟩
        · rw [hleft, Files.get?_put_self hroot]
      · have hput : left.get? place = made.get? place := by
          rw [hleft, Files.get?_put_of_ne hplace]
        rw [hput]
        exact (hmade.entries place).imp_right .inl
    · intro other bytes hother hbefore
      have hbetween := hmade.grown.kept.read trivial hbefore
      refine hkept.read ?_ hbetween
      rw [hmade.home]
      exact hother rfl
  · refine ⟨_, _, hrun, ?_⟩
    have hmade := hneeds hmade
    refine ⟨.inr ⟨fault, rfl⟩, hmade.home, htarget, fun place => ?_, fun other bytes _ => ?_⟩
    · exact (hmade.entries place).imp_right .inl
    · exact hmade.grown.kept.read trivial

/-- Output is refused, whatever holds the files, just where its path names nothing, is absolute or
goes up; nothing is touched then. Otherwise the path that is written to has the components of the
output directory and then the names in the given path, and nothing but that file and directories on
the way to it is different afterwards, also where the write fails. -/
theorem writeOutput_stays_inside (pipeline : Pipeline) (path : String) (content : ByteArray) :
    (∀ files : Files,
      ((pipeline.writeOutput path content : ExceptT Failure (StateM Files) Unit).run.run files).1 =
        .error (.pipeline (.outsideOutput path)) ↔ FilePath.Escapes path) ∧
    (FilePath.Escapes path → ∀ (m : Type → Type) [Monad m] [FileAccess m],
      (pipeline.writeOutput path content : ExceptT Failure m Unit) =
        throw (.pipeline (.outsideOutput path))) ∧
    (¬FilePath.Escapes path →
      FilePath.components (FilePath.join pipeline.outputDir path) =
        (if pipeline.outputDir = "" then (FilePath.components path).takeWhile (· = .here)
          else FilePath.components pipeline.outputDir) ++ (FilePath.names path).map .name ∧
      ∀ files : Files, ∃ outcome left,
        (pipeline.writeOutput path content : ExceptT Failure (StateM Files) Unit).run.run files =
          (outcome, left) ∧ pipeline.Wrote path content files outcome left) := by
  have hrefused (h : FilePath.Escapes path) (m : Type → Type) [Monad m] [FileAccess m] :
      (pipeline.writeOutput path content : ExceptT Failure m Unit) =
        throw (.pipeline (.outsideOutput path)) :=
    if_neg (mt staysInside_iff.1 (not_not_intro h))
  refine ⟨fun files => ⟨fun hfailed => ?_, fun h => ?_⟩, hrefused, fun h => ?_⟩
  · refine Classical.byContradiction fun h => ?_
    obtain ⟨outcome, left, hrun, hwrote⟩ :=
      wrote_of_staysInside pipeline (staysInside_iff.2 h) content files
    rw [hrun] at hfailed
    rcases hwrote.result with ⟨hok, -⟩ | ⟨fault, herror⟩
    · cases hok.symm.trans hfailed
    · cases herror.symm.trans hfailed
  · rw [hrefused h]
    rfl
  · have hinside := staysInside_iff.2 h
    obtain ⟨relative, habove⟩ := of_staysInside hinside
    exact ⟨FilePath.components_join _ relative habove,
      wrote_of_staysInside pipeline hinside content⟩

/-- Dots and slashes that do not count, and a name that only begins with dots. -/
theorem writeOutput_stays_inside_dots :
    let pipeline : Pipeline := { standard with outputDir := "out/" }
    let path := "./a//...b"
    let left : Files := ⟨["home"], [(["home", "out", "a", "...b"], .file "x".toUTF8),
      (["home", "out", "a"], .directory), (["home", "out"], .directory), (["home"], .directory)]⟩
    ¬FilePath.Escapes path ∧
      FilePath.components (FilePath.join pipeline.outputDir path) =
        [.name "out", .name "a", .name "...b"] ∧
      pipeline.Wrote path "x".toUTF8 .empty (.ok ()) left := by
  intro pipeline path left
  have hpath : ¬FilePath.Escapes path := by decide
  obtain ⟨hcomponents, hrun⟩ := (writeOutput_stays_inside pipeline path "x".toUTF8).2.2 hpath
  obtain ⟨outcome, after, hafter, hwrote⟩ := hrun .empty
  have hdone : (pipeline.writeOutput path "x".toUTF8 :
      ExceptT Failure (StateM Files) Unit).run.run .empty = (.ok (), left) := by
    dsimp only [pipeline, path, left]
    rfl
  obtain ⟨rfl, rfl⟩ := Prod.mk.inj (hafter.symm.trans hdone)
  refine ⟨hpath, hcomponents.trans ?_, hwrote⟩
  dsimp only [pipeline, path]
  decide

/-- Without an output directory a dot at the front of a path is part of the path that is written to,
though it is no name. -/
theorem components_output_dot :
    let pipeline : Pipeline := { standard with outputDir := "" }
    ¬FilePath.Escapes "./a" ∧
      ((pipeline.writeOutput "./a" "x".toUTF8 : ExceptT Failure (StateM Files) Unit).run.run
        ⟨[], [(["a"], .directory)]⟩).1 = .error (.pipeline (.unwritable "./a" .isADirectory)) ∧
      FilePath.components "./a" ≠
        FilePath.components pipeline.outputDir ++ (FilePath.names "./a").map .name := by
  exact ⟨by decide, rfl, by decide⟩

end Pipeline

end DocPath
