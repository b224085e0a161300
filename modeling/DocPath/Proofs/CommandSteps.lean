import DocPath.Cli.Run
import DocPath.Cli.Session
import DocPath.Proofs.PipelineSteps
import DocPath.Proofs.Presented

/-!
# Steps of a command

A command is followed through a session from step to step. The steps that read are quiet: they
neither print nor touch a file, whether they succeed or fail. They answer with the document that is
there (`Session.Holds`), and what they read is in order.
-/

namespace DocPath

namespace Cli

variable {α β : Type}

/-- A step of a command that succeeds, and the rest of it. -/
theorem run_bind_eq_ok {x : Action (StateM Session) α} {f : α → Action (StateM Session) β}
    {session left : Session} {b : β} :
    (x >>= f).run.run session = (.ok b, left) ↔
      ∃ a between, x.run.run session = (.ok a, between) ∧
        (f a).run.run between = (.ok b, left) := by
  rw [run_bind]
  rcases x.run.run session with ⟨error | a, between⟩
  · constructor
    · intro h
      cases h
    · rintro ⟨a, between, h, -⟩
      cases h
  · constructor
    · intro h
      exact ⟨a, between, rfl, h⟩
    · rintro ⟨a, between, h, hf⟩
      cases h
      exact hf

/-- A step that neither prints nor touches a file, whether it succeeds or fails. -/
def Quiet (x : Action (StateM Session) α) : Prop :=
  ∀ session : Session, (x.run.run session).2.files = session.files ∧
    (x.run.run session).2.output = session.output

theorem Quiet.bind {x : Action (StateM Session) α} {f : α → Action (StateM Session) β}
    (hx : Quiet x) (hf : ∀ a, Quiet (f a)) : Quiet (x >>= f) := by
  intro session
  obtain ⟨hfiles, houtput⟩ := hx session
  rw [run_bind, ← hfiles, ← houtput]
  rcases x.run.run session with ⟨error | a, between⟩
  · exact ⟨rfl, rfl⟩
  · exact hf a between

theorem quiet_orFail {ε : Type} (wrap : ε → Failure) (result : Except ε α) :
    Quiet (orFail wrap result) := by
  intro session
  cases result <;> exact ⟨rfl, rfl⟩

theorem quiet_readText (file : String) : Quiet (readText file) := by
  unfold readText
  dsimp only
  split
  all_goals
    refine Quiet.bind (fun session => ⟨rfl, rfl⟩) fun content =>
      (quiet_orFail _ content).bind fun bytes => ?_
    intro session
    cases String.fromUTF8? bytes <;> exact ⟨rfl, rfl⟩

theorem quiet_readDocument (file : String) : Quiet (readDocument file) :=
  (quiet_readText file).bind fun _ => quiet_orFail _ _

/-! ### Reading -/

/-- What a command finds under a file name; the dash is the input. -/
def Session.content (session : Session) (file : String) : Except FileFault ByteArray :=
  if file = inputName then .ok session.input else session.files.read file

/-- The session after a file was read: the input is read to its end. -/
def Session.drained (session : Session) (file : String) : Session :=
  if file = inputName then { session with input := .empty } else session

/-- A document is found under a file name. -/
def Session.Holds (session : Session) (file : String) (v : Value) : Prop :=
  ∃ content, session.content file = .ok content ∧ Value.ofYamlBytes content = .ok v

theorem run_orFail_eq_ok {ε : Type} {wrap : ε → Failure} {result : Except ε α} {a : α}
    {session left : Session} :
    (orFail wrap result : Action (StateM Session) α).run.run session = (.ok a, left) ↔
      result = .ok a ∧ left = session := by
  cases result with
  | ok b =>
    constructor
    · intro h
      cases h
      exact ⟨rfl, rfl⟩
    · rintro ⟨⟨⟩, rfl⟩
      rfl
  | error error =>
    constructor
    · intro h
      cases h
    · rintro ⟨⟨⟩, -⟩

theorem run_decodeText_eq_ok {content : Except FileFault ByteArray} {text : String}
    {session left : Session} :
    ((do
      let bytes ← orFail Failure.io content
      match String.fromUTF8? bytes with
      | some text => pure text
      | none => throw (.failed (.io .badText)) : Action (StateM Session) String)).run.run session =
        (.ok text, left) ↔
      (∃ bytes, content = .ok bytes ∧ String.fromUTF8? bytes = some text) ∧ left = session := by
  constructor
  · intro h
    obtain ⟨bytes, between, hbytes, hdecode⟩ := run_bind_eq_ok.1 h
    obtain ⟨rfl, rfl⟩ := run_orFail_eq_ok.1 hbytes
    cases htext : String.fromUTF8? bytes with
    | none =>
      rw [htext] at hdecode
      cases hdecode
    | some found =>
      rw [htext] at hdecode
      cases hdecode
      exact ⟨⟨bytes, rfl, htext⟩, rfl⟩
  · rintro ⟨⟨bytes, rfl, htext⟩, rfl⟩
    refine run_bind_eq_ok.2 ⟨bytes, left, rfl, ?_⟩
    rw [htext]
    rfl

theorem run_readText_eq_ok {file text : String} {session left : Session} :
    (readText file : Action (StateM Session) String).run.run session = (.ok text, left) ↔
      (∃ content, session.content file = .ok content ∧ String.fromUTF8? content = some text) ∧
        left = session.drained file := by
  rw [readText, Session.content, Session.drained]
  dsimp only
  by_cases hinput : file = inputName
  · rw [if_pos hinput, if_pos hinput, if_pos hinput, run_bind, run_map]
    exact run_decodeText_eq_ok
  · rw [if_neg hinput, if_neg hinput, if_neg hinput, run_lift_bind]
    exact run_decodeText_eq_ok

/-- A document is read where it is found. -/
theorem run_readDocument_eq_ok {file : String} {v : Value} {session left : Session} :
    (readDocument file : Action (StateM Session) Value).run.run session = (.ok v, left) ↔
      session.Holds file v ∧ left = session.drained file := by
  constructor
  · intro h
    obtain ⟨text, between, htext, h⟩ := run_bind_eq_ok.1 h
    obtain ⟨hvalue, rfl⟩ := run_orFail_eq_ok.1 h
    obtain ⟨⟨content, hcontent, hdecode⟩, hleft⟩ := run_readText_eq_ok.1 htext
    exact ⟨⟨content, hcontent, Value.ofYamlBytes_eq_ok.2 ⟨text, hdecode, hvalue⟩⟩, hleft⟩
  · rintro ⟨⟨content, hcontent, h⟩, hleft⟩
    obtain ⟨text, hdecode, hvalue⟩ := Value.ofYamlBytes_eq_ok.1 h
    exact run_bind_eq_ok.2 ⟨text, left,
      run_readText_eq_ok.2 ⟨⟨content, hcontent, hdecode⟩, hleft⟩,
      run_orFail_eq_ok.2 ⟨hvalue, rfl⟩⟩

/-- What is found at a path of a document. -/
theorem run_found_eq_ok {path : String} {result : Except AccessError (Option Value)} {v : Value}
    {session left : Session} :
    (found path result : Action (StateM Session) Value).run.run session = (.ok v, left) ↔
      result = .ok (some v) ∧ left = session := by
  constructor
  · intro h
    obtain ⟨value, between, hvalue, h⟩ := run_bind_eq_ok.1 h
    obtain ⟨rfl, rfl⟩ := run_orFail_eq_ok.1 hvalue
    cases value with
    | none => cases h
    | some found =>
      cases h
      exact ⟨rfl, rfl⟩
  · rintro ⟨rfl, rfl⟩
    rfl

theorem quiet_found (path : String) (result : Except AccessError (Option Value)) :
    Quiet (found path result) := by
  refine (quiet_orFail _ result).bind fun value session => ?_
  cases value <;> exact ⟨rfl, rfl⟩

/-- A document that a command has read is in order. -/
theorem ordered_of_readDocument {file : String} {session left : Session} {v : Value}
    (h : (readDocument file : Action (StateM Session) Value).run.run session = (.ok v, left)) :
    v.Ordered := by
  obtain ⟨⟨content, -, hvalue⟩, -⟩ := run_readDocument_eq_ok.1 h
  exact Value.ordered_of_ofYamlBytes hvalue

/-! ### Steps of a pipeline in a session -/

theorem run_inPipeline (step : ExceptT Failure (StateM Session) α) (session : Session) :
    (inPipeline step).run.run session =
      ((step.run.run session).1.mapError CommandError.failed, (step.run.run session).2) := rfl

theorem run_readDecoded (path : String) (decode : ByteArray → Except YamlFault α)
    (session : Session) :
    (Pipeline.readDecoded path decode : ExceptT Failure (StateM Session) α).run.run session =
      (session.files.decoded path decode, session) :=
  Pipeline.run_readDecoded path decode session

theorem run_readStatus (pipeline : Pipeline) (session : Session) :
    (inPipeline (pipeline.readStatus : ExceptT Failure (StateM Session) Status)).run.run session =
      (((session.files.decoded pipeline.statusPath Value.ofYamlBytes).map
        Status.ofValue).mapError CommandError.failed, session) := by
  rw [run_inPipeline, Pipeline.readStatus, run_map, run_readDecoded]

theorem run_readResource (pipeline : Pipeline) (session : Session) :
    (inPipeline (pipeline.readResource :
      ExceptT Failure (StateM Session) Resource)).run.run session =
      (((session.files.decoded pipeline.inputPath Value.ofYamlBytes).bind fun object =>
        (Resource.ofValue object).mapError Failure.resource).mapError CommandError.failed,
          session) := by
  rw [run_inPipeline, Pipeline.readResource, run_bind, run_readDecoded]
  cases session.files.decoded pipeline.inputPath Value.ofYamlBytes with
  | error failure => rfl
  | ok object => cases Resource.ofValue object <;> rfl

theorem quiet_readStatus (pipeline : Pipeline) :
    Quiet (inPipeline (pipeline.readStatus : ExceptT Failure (StateM Session) Status)) := by
  intro session
  rw [run_readStatus]
  exact ⟨rfl, rfl⟩

theorem quiet_readResource (pipeline : Pipeline) :
    Quiet (inPipeline (pipeline.readResource : ExceptT Failure (StateM Session) Resource)) := by
  intro session
  rw [run_readResource]
  exact ⟨rfl, rfl⟩

/-- A status is read where the file holds a document. -/
theorem run_readStatus_eq_ok {pipeline : Pipeline} {status : Status} {session left : Session} :
    (inPipeline (pipeline.readStatus : ExceptT Failure (StateM Session) Status)).run.run session =
        (.ok status, left) ↔
      (∃ d, session.files.Holds pipeline.statusPath d ∧ Status.ofValue d = status) ∧
        left = session := by
  rw [run_readStatus, Prod.mk.injEq, mapError_eq_ok, eq_comm]
  simp only [← Files.decoded_eq_ok]
  refine and_congr ?_ eq_comm
  cases session.files.decoded pipeline.statusPath Value.ofYamlBytes with
  | error failure => simp [Except.map]
  | ok d => simp [Except.map, eq_comm]

theorem run_readResource_eq_ok {pipeline : Pipeline} {resource : Resource}
    {session left : Session} :
    (inPipeline (pipeline.readResource :
      ExceptT Failure (StateM Session) Resource)).run.run session = (.ok resource, left) ↔
      (∃ object, session.files.Holds pipeline.inputPath object ∧
        Resource.ofValue object = .ok resource) ∧ left = session := by
  rw [run_readResource, Prod.mk.injEq, mapError_eq_ok]
  simp only [← Files.decoded_eq_ok]
  refine and_congr ?_ eq_comm
  cases session.files.decoded pipeline.inputPath Value.ofYamlBytes with
  | error failure => simp [Except.bind]
  | ok object => simp [Except.bind, mapError_eq_ok]

theorem writeFile_cases (path : String) (content : ByteArray) (session : Session) :
    (∃ made left, Files.Grown session.files made ∧ made.write path content = .ok left ∧
      (Pipeline.writeFile path content : ExceptT Failure (StateM Session) Unit).run.run session =
        (.ok (), { session with files := left })) ∨
    ∃ fault left, Files.Grown session.files left ∧
      (Pipeline.writeFile path content : ExceptT Failure (StateM Session) Unit).run.run session =
        (.error (.pipeline (.unwritable path fault)), { session with files := left }) := by
  have hrun : (Pipeline.writeFile path content : ExceptT Failure (StateM Session) Unit).run.run
      session = Session.withFiles (Pipeline.writeFile path content :
        ExceptT Failure (StateM Files) Unit).run session := by
    have hmade : Pipeline.makeParents path session =
        Session.withFiles (Pipeline.makeParents path) session := by
      rw [Pipeline.makeParents, Pipeline.makeParents]
      cases FilePath.parent? path <;> rfl
    have hfiles := Pipeline.run_writeFile path content session.files
    rw [Session.withFiles, hfiles, Pipeline.run_writeFile, hmade, Session.withFiles, StateT.run]
    rcases Pipeline.makeParents path session.files with ⟨fault | ⟨⟩, made⟩
    · rfl
    · rfl
  rw [hrun]
  rcases Files.writeFile_cases path content session.files with
    ⟨made, left, hmade, hwrite, h⟩ | ⟨fault, left, hmade, h⟩
  · exact .inl ⟨made, left, hmade.grown, hwrite, by rw [Session.withFiles, h]⟩
  · exact .inr ⟨fault, left, hmade.grown, by rw [Session.withFiles, h]⟩

end Cli

end DocPath
