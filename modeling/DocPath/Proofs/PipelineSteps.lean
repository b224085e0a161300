import DocPath.Pipeline.Run
import DocPath.Proofs.FilePlaces

/-!
# Steps of a pipeline

A pipeline reads a file and decodes it, or it writes one after the directories that it lies in.
Whatever holds the files, such a step does what its accesses to them do; on files in memory a read
leaves them as they are, and a write that is refused has made some directories at most.
-/

namespace DocPath

namespace Pipeline

variable {σ : Type} [FileAccess (StateM σ)]

/-- What a file that was read answers when it is decoded. -/
def decoded {α : Type} (path : String) (decode : ByteArray → Except YamlFault α) :
    Except FileFault ByteArray → Except Failure α
  | .error fault => .error (.pipeline (.unreadable path fault))
  | .ok bytes => (decode bytes).mapError fun _ => .pipeline (.undecodable path)

theorem run_readDecoded {α : Type} (path : String) (decode : ByteArray → Except YamlFault α)
    (s : σ) : (readDecoded path decode : ExceptT Failure (StateM σ) α).run.run s =
      let (content, s) := (FileAccess.readFile path : StateM σ _) s
      (decoded path decode content, s) := by
  rw [readDecoded, run_lift_bind]
  rcases (FileAccess.readFile path : StateM σ _) s with ⟨fault | bytes, left⟩
  · rfl
  · dsimp only [decoded]
    cases decode bytes <;> rfl

/-- Makes the directories that a file lies in, as far as they are missing. -/
def makeParents (path : String) : StateM σ (Except FileFault Unit) :=
  match FilePath.parent? path with
  | some directory => FileAccess.makeDirectories directory
  | none => pure (.ok ())

theorem run_writeFile (path : String) (content : ByteArray) (s : σ) :
    (writeFile path content : ExceptT Failure (StateM σ) Unit).run.run s =
      let (made, s) := makeParents path s
      let (written, s) := match made with
        | .ok () => (FileAccess.writeFile path content : StateM σ _) s
        | .error fault => (.error fault, s)
      (written.mapError fun fault => .pipeline (.unwritable path fault), s) := by
  have hwrite (s : σ) : ((liftM (FileAccess.writeFile path content : StateM σ _) >>=
      fun written => match written with
        | .ok () => pure ()
        | .error fault => throw (.pipeline (.unwritable path fault)) :
        ExceptT Failure (StateM σ) Unit)).run.run s =
      let (written, s) := (FileAccess.writeFile path content : StateM σ _) s
      (written.mapError fun fault => .pipeline (.unwritable path fault), s) := by
    rw [run_lift_bind]
    rcases (FileAccess.writeFile path content : StateM σ _) s with ⟨fault | ⟨⟩, left⟩ <;> rfl
  rw [writeFile, makeParents]
  cases FilePath.parent? path with
  | none => exact hwrite s
  | some directory =>
    dsimp only
    rw [run_lift_bind]
    rcases (FileAccess.makeDirectories directory : StateM σ _) s with ⟨fault | ⟨⟩, left⟩
    · rfl
    · exact hwrite left

end Pipeline

namespace Files

variable {files : Files}

/-- What a file answers when it is read and decoded. -/
def decoded {α : Type} (path : String) (decode : ByteArray → Except YamlFault α) (files : Files) :
    Except Failure α :=
  Pipeline.decoded path decode (files.read path)

theorem decoded_of_read {path : String} {content : ByteArray} (h : files.read path = .ok content)
    {α : Type} (decode : ByteArray → Except YamlFault α) : files.decoded path decode =
      (decode content).mapError fun _ => .pipeline (.undecodable path) := by
  rw [decoded, h, Pipeline.decoded]

/-- A file holds a document. -/
def Holds (files : Files) (path : String) (v : Value) : Prop :=
  ∃ content, files.read path = .ok content ∧ Value.ofYamlBytes content = .ok v

theorem Holds.unique {path : String} {v w : Value} (h : files.Holds path v)
    (h' : files.Holds path w) : v = w := by
  obtain ⟨content, hread, hvalue⟩ := h
  obtain ⟨again, hagain, hvalue'⟩ := h'
  cases hread.symm.trans hagain
  exact Except.ok.inj (hvalue.symm.trans hvalue')

theorem decoded_eq_ok {path : String} {v : Value} :
    files.decoded path Value.ofYamlBytes = .ok v ↔ files.Holds path v := by
  rw [decoded, Holds]
  cases files.read path with
  | error fault => simp [Pipeline.decoded]
  | ok content => simp [Pipeline.decoded, mapError_eq_ok]

theorem run_readDecoded {α : Type} (path : String) (decode : ByteArray → Except YamlFault α)
    (files : Files) :
    (Pipeline.readDecoded path decode : ExceptT Failure (StateM Files) α).run.run files =
      (files.decoded path decode, files) :=
  Pipeline.run_readDecoded path decode files

/-- The places of the directories that a path lies in. -/
def OnTheWay (home : Place) (path : String) (place : Place) : Prop :=
  ∃ parent, FilePath.parent? path = some parent ∧
    ∃ directory ∈ FilePath.lineage parent, place = placeOf home directory

theorem made_makeParents (path : String) (files : Files) :
    Made (OnTheWay files.home path) files (Pipeline.makeParents path files).2 := by
  rw [Pipeline.makeParents]
  cases hparent : FilePath.parent? path with
  | some parent =>
    exact (made_makeDirectories (FilePath.lineage parent) files).mono fun place hplace =>
      ⟨parent, hparent, hplace⟩
  | none => exact .refl _ files

/-- A pipeline writes a file where the directories that it lies in are there, or have been made. A
write that is refused may have made some of them. -/
theorem writeFile_cases (path : String) (content : ByteArray) (files : Files) :
    (∃ made left, Made (OnTheWay files.home path) files made ∧
      made.write path content = .ok left ∧
      (Pipeline.writeFile path content : ExceptT Failure (StateM Files) Unit).run.run files =
        (.ok (), left)) ∨
    ∃ fault left, Made (OnTheWay files.home path) files left ∧
      (Pipeline.writeFile path content : ExceptT Failure (StateM Files) Unit).run.run files =
        (.error (.pipeline (.unwritable path fault)), left) := by
  have hmade := made_makeParents path files
  rw [Pipeline.run_writeFile]
  generalize Pipeline.makeParents path files = parents at hmade
  rcases parents with ⟨fault | ⟨⟩, made⟩
  · exact .inr ⟨fault, made, hmade, rfl⟩
  · dsimp only at hmade ⊢
    cases hwrite : made.write path content with
    | error fault =>
      refine .inr ⟨fault, made, hmade, ?_⟩
      simp only [FileAccess.writeFile, hwrite, mapError_error]
    | ok left =>
      refine .inl ⟨made, left, hmade, hwrite, ?_⟩
      simp only [FileAccess.writeFile, hwrite, mapError_ok]

end Files

end DocPath
