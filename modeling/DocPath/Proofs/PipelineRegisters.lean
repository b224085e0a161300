import DocPath.Proofs.OutputPlaces
import DocPath.Proofs.Presented
import Mathlib

/-!
# The files of a pipeline are registers

The status, the destination selectors and the output files of a pipeline each hold what was put into
them last, whatever else was done in between, and the input object stays what it is. For that the
directories of the pipeline have to lie apart, and whoever its status is published to has to leave
them alone. Works that are refused do not count.
-/

namespace DocPath

/-- One thing that a pipeline does. -/
inductive Work where
  | status (status : Status)
  | selectors (selectors : List Selector)
  | output (path : String) (content : ByteArray)
  | publish (resource : Resource) (incoming : Status)

/-- The document that a work writes, if it writes one. -/
def Work.document? : Work → Option Value
  | .status s => some s.toValue
  | .selectors list => some (.sequence (list.map Selector.toValue))
  | .output _ _ | .publish _ _ => none

namespace Pipeline

variable (pipeline : Pipeline) (updater : Option (Updater (StateM Files)))

/-- Does one thing. -/
def work : Work → ExceptT Failure (StateM Files) Unit
  | .status status => pipeline.writeStatus status
  | .selectors selectors => pipeline.writeSelectors selectors
  | .output path content => pipeline.writeOutput path content
  | .publish resource incoming => pipeline.publish updater resource incoming

/-- Does one thing after the other, also after one that is refused. The answer is what was not
refused. -/
def workAll : List Work → Files → List Work × Files
  | [], files => ([], files)
  | work :: rest, files => match (pipeline.work updater work).run.run files with
    | (.ok (), left) =>
      let (accepted, left) := workAll rest left
      (work :: accepted, left)
    | (.error _, left) => workAll rest left

/-- What reading answers. -/
def answer {α : Type} (reading : ExceptT Failure (StateM Files) α) (files : Files) :
    Except Failure α :=
  (reading.run.run files).1

/-- The path and the content of the file that a work writes, if it may write one. -/
def fileOf : Work → Option (String × ByteArray)
  | .status status => some (pipeline.statusPath, status.toValue.toYamlText.toUTF8)
  | .selectors selectors => some (pipeline.selectorsPath,
      (Value.sequence (selectors.map Selector.toValue)).toYamlText.toUTF8)
  | .output path content =>
    if staysInside path then some (FilePath.join pipeline.outputDir path, content) else none
  | .publish _ _ => none

/-- Neither place lies in the other one. -/
def Parted (first second : Place) : Prop := ¬first <+: second ∧ ¬second <+: first

/-- The directories of a pipeline lie apart. -/
structure Apart (home : Place) : Prop where
  input_metadata :
    Parted (Files.placeOf home pipeline.inputDir) (Files.placeOf home pipeline.metadataDir)
  input_output :
    Parted (Files.placeOf home pipeline.inputDir) (Files.placeOf home pipeline.outputDir)
  metadata_output :
    Parted (Files.placeOf home pipeline.metadataDir) (Files.placeOf home pipeline.outputDir)

/-- A place in one of the directories of a pipeline. -/
def Owns (home place : Place) : Prop :=
  Files.placeOf home pipeline.inputDir <+: place ∨
    Files.placeOf home pipeline.metadataDir <+: place ∨
      Files.placeOf home pipeline.outputDir <+: place

/-- Whoever is published to keeps what is in the directories of the pipeline. -/
def LeavesAlone (update : Updater (StateM Files)) : Prop :=
  ∀ target object files,
    Files.Kept (pipeline.Owns files.home) files ((update target object).run.run files).2

/-- An updater that stores an object as a file, in place of the one before. -/
def storeIn (file : String) : Updater (StateM Files) :=
  fun _ object => writeFile file object.toYamlText.toUTF8

/-- What the files of a pipeline answer after a run: what was put there last, or else what they
answered before. -/
structure Registers (before : Files) (accepted : List Work) (after : Files) : Prop where
  status : ∀ earlier later status, accepted = earlier ++ .status status :: later →
    (∀ other, .status other ∉ later) → answer pipeline.readStatus after = .ok status
  /-- Without a new status there is the one that was in the file before. -/
  status_before : (∀ status, .status status ∉ accepted) →
    ∀ content, before.read pipeline.statusPath = .ok content →
      answer pipeline.readStatus after = answer pipeline.readStatus before
  selectors : ∀ earlier later selectors, accepted = earlier ++ .selectors selectors :: later →
    (∀ other, .selectors other ∉ later) → answer pipeline.readSelectors after = .ok selectors
  selectors_before : (∀ selectors, .selectors selectors ∉ accepted) →
    ∀ content, before.read pipeline.selectorsPath = .ok content →
      answer pipeline.readSelectors after = answer pipeline.readSelectors before
  /-- Different paths can lead to one file. -/
  output : ∀ earlier later path content, accepted = earlier ++ .output path content :: later →
    (∀ other bytes, .output other bytes ∈ later →
      Files.placeOf before.home (FilePath.join pipeline.outputDir other) ≠
        Files.placeOf before.home (FilePath.join pipeline.outputDir path)) →
    after.read (FilePath.join pipeline.outputDir path) = .ok content
  resource : ∀ content, before.read pipeline.inputPath = .ok content →
    answer pipeline.readResource after = answer pipeline.readResource before

variable {pipeline : Pipeline} {updater : Option (Updater (StateM Files))}

/-! ### One work -/

/-- A write that is done puts a file at its place and keeps all others, and one that is refused
keeps that one too. -/
theorem kept_of_writeFile {path : String} {content : ByteArray} {files left : Files}
    {outcome : Except Failure Unit}
    (h : (writeFile path content : ExceptT Failure (StateM Files) Unit).run.run files =
      (outcome, left)) :
    Files.Kept (fun place => outcome = .ok () → Files.placeOf files.home path ≠ place) files left ∧
      (outcome = .ok () → left.read path = .ok content) := by
  rcases Files.writeFile_cases path content files with
    ⟨made, written, hmade, hwrite, hrun⟩ | ⟨fault, written, hmade, hrun⟩
  · cases h.symm.trans hrun
    have hgrown := hmade.grown
    have hkept := Files.kept_of_write hwrite
    rw [hgrown.kept.home] at hkept
    refine ⟨(hgrown.kept.mono fun _ _ => trivial).trans (hkept.mono fun place hplace => ?_), ?_⟩
    · exact (hplace rfl).symm
    · exact fun _ => (Files.of_write hwrite).2.2.2
  · cases h.symm.trans hrun
    refine ⟨hmade.grown.kept.mono fun _ _ => trivial, fun hok => ?_⟩
    cases hok

/-- A file outside the directories of a pipeline is a place to publish to. -/
theorem leavesAlone_storeIn {file : String}
    (outside : ∀ home, ¬pipeline.Owns home (Files.placeOf home file)) :
    pipeline.LeavesAlone (storeIn file) := by
  intro target object files
  refine (kept_of_writeFile rfl).1.mono fun place hplace _ hfile => ?_
  rw [← hfile] at hplace
  exact outside files.home hplace

/-- A work that writes a file does nothing else. -/
theorem work_of_fileOf {work : Work} {path : String} {content : ByteArray}
    (h : pipeline.fileOf work = some (path, content)) :
    pipeline.work updater work = writeFile path content := by
  cases work with
  | status status =>
    cases h
    rfl
  | selectors selectors =>
    cases h
    rfl
  | output relative bytes =>
    rw [fileOf] at h
    split at h
    · rename_i hinside
      cases h
      rw [Pipeline.work, writeOutput, if_pos hinside]
    · cases h
  | publish resource incoming => cases h

/-- Output that is not refused stays inside the output directory. -/
theorem staysInside_of_work {path : String} {content : ByteArray} {files left : Files}
    (h : (pipeline.work updater (.output path content)).run.run files = (.ok (), left)) :
    staysInside path = true := by
  by_cases hinside : staysInside path = true
  · exact hinside
  · rw [Pipeline.work, writeOutput, if_neg hinside] at h
    cases h

/-- A work that writes no file keeps the files of the pipeline. -/
theorem kept_of_fileOf_none (alone : ∀ update, updater = some update → pipeline.LeavesAlone update)
    {work : Work} (h : pipeline.fileOf work = none) (files : Files) :
    Files.Kept (pipeline.Owns files.home) files ((pipeline.work updater work).run.run files).2 := by
  cases work with
  | status status => cases h
  | selectors selectors => cases h
  | output relative bytes =>
    rw [fileOf] at h
    split at h
    · cases h
    · rename_i hinside
      rw [Pipeline.work, writeOutput, if_neg hinside]
      exact .refl _ files
  | publish resource incoming =>
    cases updater with
    | none => exact .refl _ files
    | some update => exact alone update rfl _ _ files

/-- A work keeps the files of the pipeline but for the one that it writes, and if it is refused that
one too. -/
theorem kept_of_work (alone : ∀ update, updater = some update → pipeline.LeavesAlone update)
    {work : Work} {files left : Files} {outcome : Except Failure Unit}
    (h : (pipeline.work updater work).run.run files = (outcome, left)) :
    Files.Kept (fun place => pipeline.Owns files.home place ∧ (outcome = .ok () →
        ∀ file, pipeline.fileOf work = some file → Files.placeOf files.home file.1 ≠ place))
      files left ∧
    (outcome = .ok () → ∀ path content, pipeline.fileOf work = some (path, content) →
      left.read path = .ok content) := by
  cases hfile : pipeline.fileOf work with
  | none =>
    have hkept := kept_of_fileOf_none alone hfile files
    rw [h] at hkept
    refine ⟨hkept.mono fun place hplace => hplace.1, fun _ path content hnone => ?_⟩
    cases hnone
  | some file =>
    obtain ⟨path, content⟩ := file
    rw [work_of_fileOf hfile] at h
    obtain ⟨hkept, hread⟩ := kept_of_writeFile h
    refine ⟨hkept.mono fun place hplace hok => ?_, ?_⟩
    · exact hplace.2 hok (path, content) rfl
    · rintro hok _ _ ⟨⟩
      exact hread hok

/-! ### Many works -/

theorem workAll_of_ok {work : Work} {files left : Files}
    (h : (pipeline.work updater work).run.run files = (.ok (), left)) (rest : List Work) :
    pipeline.workAll updater (work :: rest) files =
      (work :: (pipeline.workAll updater rest left).1, (pipeline.workAll updater rest left).2) := by
  rw [workAll, h]

theorem workAll_of_error {work : Work} {files left : Files} {failure : Failure}
    (h : (pipeline.work updater work).run.run files = (.error failure, left)) (rest : List Work) :
    pipeline.workAll updater (work :: rest) files = pipeline.workAll updater rest left := by
  rw [workAll, h]

/-- Works keep the files of the pipeline but for those that one of them wrote. -/
theorem kept_of_workAll (alone : ∀ update, updater = some update → pipeline.LeavesAlone update)
    {works accepted : List Work} {before after : Files}
    (h : pipeline.workAll updater works before = (accepted, after)) :
    Files.Kept (fun place => pipeline.Owns before.home place ∧ ∀ work ∈ accepted, ∀ file,
        pipeline.fileOf work = some file → Files.placeOf before.home file.1 ≠ place)
      before after := by
  induction works generalizing before accepted with
  | nil =>
    cases h
    exact .refl _ _
  | cons work rest ih =>
    rcases hwork : (pipeline.work updater work).run.run before with ⟨failure | ⟨⟩, left⟩
    · rw [workAll_of_error hwork] at h
      have hfirst := (kept_of_work alone hwork).1
      have hrest := ih h
      rw [hfirst.home] at hrest
      refine (hfirst.mono fun place hplace => ⟨hplace.1, fun hok => ?_⟩).trans hrest
      cases hok
    · rw [workAll_of_ok hwork] at h
      obtain ⟨rfl, rfl⟩ := Prod.mk.inj h
      have hfirst := (kept_of_work alone hwork).1
      have hrest := ih (Prod.eta _).symm
      rw [hfirst.home] at hrest
      refine (hfirst.mono fun place hplace => ⟨hplace.1, fun _ => ?_⟩).trans
        (hrest.mono fun place hplace => ⟨hplace.1, fun other mem => ?_⟩)
      · exact hplace.2 work List.mem_cons_self
      · exact hplace.2 other (List.mem_cons_of_mem _ mem)

/-- A run can be taken apart at every accepted work. -/
theorem workAll_split {works earlier later : List Work} {work : Work} {before after : Files}
    (h : pipeline.workAll updater works before = (earlier ++ work :: later, after)) :
    ∃ worksBefore worksAfter mid left,
      pipeline.workAll updater worksBefore before = (earlier, mid) ∧
      (pipeline.work updater work).run.run mid = (.ok (), left) ∧
      pipeline.workAll updater worksAfter left = (later, after) := by
  induction works generalizing before earlier with
  | nil =>
    have hnil := congrArg Prod.fst h
    simp [workAll] at hnil
  | cons first rest ih =>
    rcases hfirst : (pipeline.work updater first).run.run before with ⟨failure | ⟨⟩, next⟩
    · rw [workAll_of_error hfirst] at h
      obtain ⟨worksBefore, worksAfter, mid, left, hbefore, hwork, hafter⟩ := ih h
      refine ⟨first :: worksBefore, worksAfter, mid, left, ?_, hwork, hafter⟩
      rw [workAll_of_error hfirst, hbefore]
    · rw [workAll_of_ok hfirst] at h
      obtain ⟨haccepted, rfl⟩ := Prod.mk.inj h
      cases earlier with
      | nil =>
        obtain ⟨rfl, rfl⟩ := List.cons.inj haccepted
        exact ⟨[], rest, before, next, rfl, hfirst, (Prod.eta _).symm⟩
      | cons head earlier =>
        obtain ⟨rfl, hothers⟩ := List.cons.inj haccepted
        obtain ⟨worksBefore, worksAfter, mid, left, hbefore, hwork, hafter⟩ :=
          ih (Prod.ext hothers rfl)
        refine ⟨first :: worksBefore, worksAfter, mid, left, ?_, hwork, hafter⟩
        rw [workAll_of_ok hfirst, hbefore]

/-- A file holds what was written last at its place. -/
theorem read_of_workAll (alone : ∀ update, updater = some update → pipeline.LeavesAlone update)
    {works earlier later : List Work} {work : Work} {before after : Files}
    (h : pipeline.workAll updater works before = (earlier ++ work :: later, after))
    {path : String} {content : ByteArray} (hfile : pipeline.fileOf work = some (path, content))
    (owned : pipeline.Owns before.home (Files.placeOf before.home path))
    (hlater : ∀ other ∈ later, ∀ file, pipeline.fileOf other = some file →
      Files.placeOf before.home file.1 ≠ Files.placeOf before.home path) :
    after.read path = .ok content := by
  obtain ⟨worksBefore, worksAfter, mid, left, hbefore, hwork, hafter⟩ := workAll_split h
  obtain ⟨hkept, hput⟩ := kept_of_work alone hwork
  have hhome : left.home = before.home := hkept.home.trans (kept_of_workAll alone hbefore).home
  have hrest := kept_of_workAll alone hafter
  rw [hhome] at hrest
  refine hrest.read ?_ (hput rfl path content hfile)
  rw [hhome]
  exact ⟨owned, hlater⟩

/-! ### Whose file is whose -/

variable {home : Place}

theorem placeOf_statusPath (pipeline : Pipeline) (home : Place) :
    Files.placeOf home pipeline.statusPath =
      Files.placeOf home pipeline.metadataDir ++ ["status.yaml"] :=
  Files.placeOf_join_name ⟨by decide, by decide, by decide⟩ home _

theorem placeOf_selectorsPath (pipeline : Pipeline) (home : Place) :
    Files.placeOf home pipeline.selectorsPath =
      Files.placeOf home pipeline.metadataDir ++ ["destination_selectors.yaml"] :=
  Files.placeOf_join_name ⟨by decide, by decide, by decide⟩ home _

/-- The files of output lie in the output directory. -/
theorem prefix_of_staysInside (pipeline : Pipeline) {path : String} (h : staysInside path = true)
    (home : Place) : Files.placeOf home pipeline.outputDir <+:
      Files.placeOf home (FilePath.join pipeline.outputDir path) := by
  rw [placeOf_output pipeline h]
  exact List.prefix_append _ _

/-- Places in directories that lie apart are different. -/
theorem Parted.ne {first second place other : Place} (h : Parted first second)
    (hplace : first <+: place) (hother : second <+: other) : place ≠ other := by
  rintro rfl
  rcases List.prefix_or_prefix_of_prefix hplace hother with hin | hin
  · exact h.1 hin
  · exact h.2 hin

theorem fileOf_eq_some {work : Work} {file : String × ByteArray}
    (h : pipeline.fileOf work = some file) :
    (∃ status, work = .status status ∧ file.1 = pipeline.statusPath) ∨
    (∃ selectors, work = .selectors selectors ∧ file.1 = pipeline.selectorsPath) ∨
    ∃ path content, work = .output path content ∧ staysInside path = true ∧
      file.1 = FilePath.join pipeline.outputDir path := by
  cases work with
  | status status =>
    cases h
    exact .inl ⟨status, rfl, rfl⟩
  | selectors selectors =>
    cases h
    exact .inr (.inl ⟨selectors, rfl, rfl⟩)
  | output path content =>
    rw [fileOf] at h
    split at h
    · rename_i hinside
      cases h
      exact .inr (.inr ⟨path, content, rfl, hinside, rfl⟩)
    · cases h
  | publish resource incoming => cases h

/-- What lies in the metadata directory is no output. -/
theorem placeOf_output_ne (apart : pipeline.Apart home) {path : String}
    (h : staysInside path = true) (name : String) :
    Files.placeOf home (FilePath.join pipeline.outputDir path) ≠
      Files.placeOf home pipeline.metadataDir ++ [name] :=
  (apart.metadata_output.ne (List.prefix_append _ _) (prefix_of_staysInside pipeline h home)).symm

theorem placeOf_statusPath_ne (pipeline : Pipeline) (home : Place) :
    Files.placeOf home pipeline.statusPath ≠ Files.placeOf home pipeline.selectorsPath := by
  rw [placeOf_statusPath, placeOf_selectorsPath]
  intro h
  have hnames := List.append_cancel_left h
  exact absurd (List.cons.inj hnames).1 (by decide)

/-- A work that writes where the status lies writes a status. -/
theorem exists_status_of_fileOf (apart : pipeline.Apart home) {work : Work}
    {file : String × ByteArray} (hfile : pipeline.fileOf work = some file)
    (hplace : Files.placeOf home file.1 = Files.placeOf home pipeline.statusPath) :
    ∃ status, work = .status status := by
  rcases fileOf_eq_some hfile with
    ⟨status, rfl, -⟩ | ⟨selectors, -, hpath⟩ | ⟨path, content, -, hinside, hpath⟩
  · exact ⟨status, rfl⟩
  · rw [hpath] at hplace
    exact absurd hplace.symm (placeOf_statusPath_ne pipeline home)
  · rw [hpath, placeOf_statusPath] at hplace
    exact absurd hplace (placeOf_output_ne apart hinside _)

/-- A work that writes where the selectors lie writes selectors. -/
theorem exists_selectors_of_fileOf (apart : pipeline.Apart home) {work : Work}
    {file : String × ByteArray} (hfile : pipeline.fileOf work = some file)
    (hplace : Files.placeOf home file.1 = Files.placeOf home pipeline.selectorsPath) :
    ∃ selectors, work = .selectors selectors := by
  rcases fileOf_eq_some hfile with
    ⟨status, -, hpath⟩ | ⟨selectors, rfl, -⟩ | ⟨path, content, -, hinside, hpath⟩
  · rw [hpath] at hplace
    exact absurd hplace (placeOf_statusPath_ne pipeline home)
  · exact ⟨selectors, rfl⟩
  · rw [hpath, placeOf_selectorsPath] at hplace
    exact absurd hplace (placeOf_output_ne apart hinside _)

/-- A work that writes where an output lies writes that output, perhaps by another path. -/
theorem exists_output_of_fileOf (apart : pipeline.Apart home) {work : Work}
    {file : String × ByteArray} (hfile : pipeline.fileOf work = some file) {path : String}
    (hinside : staysInside path = true)
    (hplace : Files.placeOf home file.1 =
      Files.placeOf home (FilePath.join pipeline.outputDir path)) :
    ∃ other content, work = .output other content ∧
      Files.placeOf home (FilePath.join pipeline.outputDir other) =
        Files.placeOf home (FilePath.join pipeline.outputDir path) := by
  rcases fileOf_eq_some hfile with
    ⟨status, -, hpath⟩ | ⟨selectors, -, hpath⟩ | ⟨other, content, rfl, -, hpath⟩
  · rw [hpath, placeOf_statusPath] at hplace
    exact absurd hplace.symm (placeOf_output_ne apart hinside _)
  · rw [hpath, placeOf_selectorsPath] at hplace
    exact absurd hplace.symm (placeOf_output_ne apart hinside _)
  · exact ⟨other, content, rfl, hpath ▸ hplace⟩

/-- No work writes where the input object lies. -/
theorem placeOf_inputPath_ne (apart : pipeline.Apart home)
    (plain : Files.IsName pipeline.inputObject) {work : Work} {file : String × ByteArray}
    (hfile : pipeline.fileOf work = some file) :
    Files.placeOf home file.1 ≠ Files.placeOf home pipeline.inputPath := by
  have hinput : Files.placeOf home pipeline.inputDir <+:
      Files.placeOf home pipeline.inputPath := by
    rw [inputPath, Files.placeOf_join_name plain]
    exact List.prefix_append _ _
  rcases fileOf_eq_some hfile with
    ⟨status, -, hpath⟩ | ⟨selectors, -, hpath⟩ | ⟨path, content, -, hinside, hpath⟩
  · rw [hpath, placeOf_statusPath]
    exact (apart.input_metadata.ne hinput (List.prefix_append _ _)).symm
  · rw [hpath, placeOf_selectorsPath]
    exact (apart.input_metadata.ne hinput (List.prefix_append _ _)).symm
  · rw [hpath]
    exact (apart.input_output.ne hinput (prefix_of_staysInside pipeline hinside home)).symm

/-! ### Reading -/

theorem answer_readStatus (pipeline : Pipeline) (files : Files) :
    answer pipeline.readStatus files =
      (files.decoded pipeline.statusPath Value.ofYamlBytes).map Status.ofValue := by
  rw [answer, readStatus, run_map, Files.run_readDecoded]

theorem answer_readSelectors (pipeline : Pipeline) (files : Files) :
    answer pipeline.readSelectors files =
      (files.decoded pipeline.selectorsPath fun bytes => (Yaml.Document.ofBytes bytes).bind
        (Yaml.Document.decode (α := Option (List Selector)))).map (·.getD []) := by
  rw [answer, readSelectors, run_bind, Files.run_readDecoded]
  cases files.decoded pipeline.selectorsPath _ <;> rfl

theorem answer_readResource (pipeline : Pipeline) (files : Files) :
    answer pipeline.readResource files =
      (files.decoded pipeline.inputPath Value.ofYamlBytes).bind fun object =>
        (Resource.ofValue object).mapError Failure.resource := by
  rw [answer, readResource, run_bind, Files.run_readDecoded]
  cases files.decoded pipeline.inputPath _ <;> rfl

/-- However often and in whichever order a pipeline writes its status, its selectors and its output
and publishes, each of its files holds what was put there last. -/
theorem registers_of_workAll {before after : Files} (apart : pipeline.Apart before.home)
    (plain : Files.IsName pipeline.inputObject)
    (alone : ∀ update, updater = some update → pipeline.LeavesAlone update)
    {works accepted : List Work}
    (documents : ∀ work ∈ accepted, ∀ document, work.document? = some document →
      document.Ordered ∧ document.Within Yaml.nestingLimit ∧ document.ReadsBack)
    (h : pipeline.workAll updater works before = (accepted, after)) :
    pipeline.Registers before accepted after := by
  have hkept := kept_of_workAll alone h
  have owns_status : pipeline.Owns before.home (Files.placeOf before.home pipeline.statusPath) := by
    rw [placeOf_statusPath]
    exact .inr (.inl (List.prefix_append _ _))
  have owns_selectors :
      pipeline.Owns before.home (Files.placeOf before.home pipeline.selectorsPath) := by
    rw [placeOf_selectorsPath]
    exact .inr (.inl (List.prefix_append _ _))
  constructor
  case status =>
    rintro earlier later status rfl hlast
    have hread := read_of_workAll alone h rfl owns_status fun other mem file hfile hplace => by
      obtain ⟨another, rfl⟩ := exists_status_of_fileOf apart hfile hplace
      exact hlast another mem
    obtain ⟨ordered, within, readsBack⟩ := documents (.status status) (by simp) _ rfl
    rw [answer_readStatus, Files.decoded_of_read hread, readsBack.ofYamlBytes ordered within]
    rfl
  case status_before =>
    intro hnone content hread
    have hread' := hkept.read ⟨owns_status, fun work mem file hfile hplace => by
      obtain ⟨another, rfl⟩ := exists_status_of_fileOf apart hfile hplace
      exact hnone another mem⟩ hread
    rw [answer_readStatus, answer_readStatus, Files.decoded_of_read hread,
      Files.decoded_of_read hread']
  case selectors =>
    rintro earlier later selectors rfl hlast
    have hread := read_of_workAll alone h rfl owns_selectors fun other mem file hfile hplace => by
      obtain ⟨another, rfl⟩ := exists_selectors_of_fileOf apart hfile hplace
      exact hlast another mem
    obtain ⟨ordered, -, readsBack⟩ := documents (.selectors selectors) (by simp) _ rfl
    rw [answer_readSelectors, Files.decoded_of_read hread,
      Selector.decode_of_readsBack readsBack ordered]
    rfl
  case selectors_before =>
    intro hnone content hread
    have hread' := hkept.read ⟨owns_selectors, fun work mem file hfile hplace => by
      obtain ⟨another, rfl⟩ := exists_selectors_of_fileOf apart hfile hplace
      exact hnone another mem⟩ hread
    rw [answer_readSelectors, answer_readSelectors, Files.decoded_of_read hread,
      Files.decoded_of_read hread']
  case output =>
    rintro earlier later path content rfl hlast
    obtain ⟨-, -, mid, left, -, hwork, -⟩ := workAll_split h
    have hinside := staysInside_of_work hwork
    have hfile : pipeline.fileOf (.output path content) =
        some (FilePath.join pipeline.outputDir path, content) := by
      rw [fileOf, if_pos hinside]
    have owned : pipeline.Owns before.home
        (Files.placeOf before.home (FilePath.join pipeline.outputDir path)) :=
      .inr (.inr (prefix_of_staysInside pipeline hinside before.home))
    refine read_of_workAll alone h hfile owned fun work mem file hfile hplace => ?_
    obtain ⟨other, bytes, rfl, hother⟩ := exists_output_of_fileOf apart hfile hinside hplace
    exact hlast other bytes mem hother
  case resource =>
    intro content hread
    have owns_input :
        pipeline.Owns before.home (Files.placeOf before.home pipeline.inputPath) := by
      rw [inputPath, Files.placeOf_join_name plain]
      exact .inl (List.prefix_append _ _)
    have hread' := hkept.read ⟨owns_input, fun work mem file hfile =>
      placeOf_inputPath_ne apart plain hfile⟩ hread
    rw [answer_readResource, answer_readResource, Files.decoded_of_read hread,
      Files.decoded_of_read hread']

/-- A status that is published to a file of its own and an empty list of selectors, with a refused
output in between. -/
theorem registers_of_workAll_refused :
    let pipeline : Pipeline := ⟨"i", "m", "o", "f", .empty⟩
    let before : Files := ⟨[], [(["i"], .directory), (["i", "f"], .file "\x7b\x7d".toUTF8),
      (["m"], .directory)]⟩
    let updater := some (storeIn "p")
    let status : Status := ⟨[("a", .int 0)]⟩
    let resource : Resource := ⟨.mapping [], .ofObject (.mapping [])⟩
    let published := resource.setStatus (resource.status.merge status)
    let selectors : List Selector := []
    let works : List Work := [.status status, .output "../m/status.yaml" .empty,
      .publish resource status, .selectors selectors]
    let accepted : List Work :=
      [.status status, .publish resource status, .selectors selectors]
    let written := before.put ["m", "status.yaml"] (.file status.toValue.toYamlText.toUTF8)
    let stored := written.put ["p"] (.file published.object.toYamlText.toUTF8)
    let after := stored.put ["m", "destination_selectors.yaml"]
      (.file (Value.sequence (selectors.map Selector.toValue)).toYamlText.toUTF8)
    (pipeline.Apart before.home ∧ Files.IsName pipeline.inputObject ∧
      (∀ update, updater = some update → pipeline.LeavesAlone update) ∧
      (∀ work ∈ accepted, ∀ document, work.document? = some document →
        document.Ordered ∧ document.Within Yaml.nestingLimit ∧ document.ReadsBack) ∧
      pipeline.workAll updater works before = (accepted, after)) ∧
    answer pipeline.readStatus after = .ok status ∧
    answer pipeline.readSelectors after = .ok selectors ∧
    answer pipeline.readResource after = answer pipeline.readResource before := by
  intro pipeline before updater status resource published selectors works accepted written stored
    after
  have apart : pipeline.Apart before.home :=
    ⟨⟨by decide, by decide⟩, ⟨by decide, by decide⟩, ⟨by decide, by decide⟩⟩
  have plain : Files.IsName pipeline.inputObject := ⟨by decide, by decide, by decide⟩
  have alone : ∀ update, updater = some update → pipeline.LeavesAlone update := by
    intro update h
    obtain rfl : storeIn "p" = update := Option.some.inj h
    have hinput : Files.IsName "i" := ⟨by decide, by decide, by decide⟩
    have hmetadata : Files.IsName "m" := ⟨by decide, by decide, by decide⟩
    have houtput : Files.IsName "o" := ⟨by decide, by decide, by decide⟩
    have hfile : Files.IsName "p" := ⟨by decide, by decide, by decide⟩
    refine leavesAlone_storeIn fun home howns => ?_
    rcases howns with hin | hin | hin
    · exact absurd (hinput.eq_of_prefix hfile hin) (by decide)
    · exact absurd (hmetadata.eq_of_prefix hfile hin) (by decide)
    · exact absurd (houtput.eq_of_prefix hfile hin) (by decide)
  -- each write is followed with any content, so that no text has to be worked out on the way
  have hstatus : (pipeline.work updater (.status status)).run.run before = (.ok (), written) := by
    have hput (content : ByteArray) :
        (writeFile "m/status.yaml" content : ExceptT Failure (StateM Files) Unit).run.run before =
          (.ok (), before.put ["m", "status.yaml"] (.file content)) := rfl
    have hpath : FilePath.join "m" "status.yaml" = "m/status.yaml" := by decide
    rw [work_of_fileOf rfl, statusPath, hpath]
    exact hput _
  have hrefused : (pipeline.work updater (.output "../m/status.yaml" .empty)).run.run written =
      (.error (.pipeline (.outsideOutput "../m/status.yaml")), written) := rfl
  have hpublish : (pipeline.work updater (.publish resource status)).run.run written =
      (.ok (), stored) := by
    have hput (old content : ByteArray) :
        (writeFile "p" content : ExceptT Failure (StateM Files) Unit).run.run
          (before.put ["m", "status.yaml"] (.file old)) =
            (.ok (), (before.put ["m", "status.yaml"] (.file old)).put ["p"] (.file content)) := rfl
    exact hput _ _
  have hselectors : (pipeline.work updater (.selectors selectors)).run.run stored =
      (.ok (), after) := by
    have hput (old object content : ByteArray) :
        (writeFile "m/destination_selectors.yaml" content :
          ExceptT Failure (StateM Files) Unit).run.run
            ((before.put ["m", "status.yaml"] (.file old)).put ["p"] (.file object)) =
              (.ok (), ((before.put ["m", "status.yaml"] (.file old)).put ["p"]
                (.file object)).put ["m", "destination_selectors.yaml"] (.file content)) := rfl
    have hpath : FilePath.join "m" "destination_selectors.yaml" =
      "m/destination_selectors.yaml" := by decide
    rw [work_of_fileOf rfl, selectorsPath, hpath]
    exact hput _ _ _
  have hrun : pipeline.workAll updater works before = (accepted, after) := by
    rw [workAll_of_ok hstatus, workAll_of_error hrefused, workAll_of_ok hpublish,
      workAll_of_ok hselectors]
    rfl
  have status_reads : status.toValue.ReadsBack := by
    have hparse : Yaml.Document.parse status.toValue.toYamlText.toList = ⟨some (.mapping .none
        [(.scalar .none true "a", .scalar .none true "0")]), true⟩ := by cbv
    refine .of_parse hparse (.mapping ?_)
    exact .cons (.scalar (m := .text) (by cbv) rfl) (.scalar (m := .integer 0) (by cbv) rfl) .nil
  have selectors_read : (Value.sequence (selectors.map Selector.toValue)).ReadsBack := by
    have hparse : Yaml.Document.parse (Value.sequence (selectors.map
        Selector.toValue)).toYamlText.toList = ⟨some (.sequence .none []), true⟩ := by cbv
    exact .of_parse hparse (.sequence .nil)
  have documents : ∀ work ∈ accepted, ∀ document, work.document? = some document →
      document.Ordered ∧ document.Within Yaml.nestingLimit ∧ document.ReadsBack := by
    intro work mem document hdocument
    rcases List.mem_cons.1 mem with rfl | mem
    · cases hdocument
      refine ⟨?_, ?_, status_reads⟩
      · exact .mapping (List.pairwise_singleton _ _) (by simpa [status] using .scalar rfl)
      · simp [status, Status.toValue, Yaml.nestingLimit, Value.Within]
    rcases List.mem_cons.1 mem with rfl | mem
    · cases hdocument
    · obtain rfl := List.mem_singleton.1 mem
      cases hdocument
      refine ⟨.sequence fun v mem => absurd mem List.not_mem_nil, ?_, selectors_read⟩
      simp [selectors, Yaml.nestingLimit, Value.Within]
  have holds := registers_of_workAll apart plain alone documents hrun
  refine ⟨⟨apart, plain, alone, documents, hrun⟩, ?_, ?_, ?_⟩
  · exact holds.status [] [.publish resource status, .selectors selectors] status rfl (by simp)
  · exact holds.selectors [.status status, .publish resource status] [] selectors rfl (by simp)
  · have hinput : FilePath.join "i" "f" = "i/f" := by decide
    refine holds.resource "\x7b\x7d".toUTF8 ?_
    rw [inputPath, hinput]
    rfl

end Pipeline

end DocPath
