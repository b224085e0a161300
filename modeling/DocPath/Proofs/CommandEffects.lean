import DocPath.Proofs.CommandSteps
import DocPath.Proofs.Publishing
import Mathlib

/-!
# What a command does to a session

A command either fails and has done nothing, or it succeeds and gives one document to one place: to
the file that it is meant to change (`Command.target?`), or to the output. The document is what the
library makes of what was read (`Command.Answers`). A published object is written as YAML wherever
it goes; anything else that is printed has the format that was asked for.
-/

namespace DocPath

namespace Cli

/-- The document that a command gives, by what is read in a session. -/
inductive Command.Answers (session : Session) : Command → Value → Prop where
  | get {path file : String} {d v : Value} (holds : session.Holds file d)
    (h : d.get (.text path) = .ok (some v)) : Answers session (.get path file) v
  | set {path text file : String} {inPlace : Bool} {d x v : Value} (holds : session.Holds file d)
    (value : Value.ofYamlText text = .ok x) (h : d.set (.text path) x = (.ok (), v)) :
    Answers session (.set path text file inPlace) v
  | remove {path file : String} {inPlace : Bool} {d v : Value} {removed : Option Value}
    (holds : session.Holds file d) (h : d.remove (.text path) = (.ok removed, v)) :
    Answers session (.remove path file inPlace) v
  | merge {target source : String} {existing incoming : Value}
    (target_holds : session.Holds target existing)
    (source_holds : (session.drained target).Holds source incoming) :
    Answers session (.merge target source) (existing.merge incoming)
  | status {pipeline : Pipeline} {d : Value} (holds : session.files.Holds pipeline.statusPath d) :
    Answers session (.status pipeline (.get none)) (Status.ofValue d).toValue
  | statusGet {pipeline : Pipeline} {path : String} {d v : Value}
    (holds : session.files.Holds pipeline.statusPath d)
    (h : (Status.ofValue d).get (.text path) = .ok (some v)) :
    Answers session (.status pipeline (.get (some path))) v
  | statusSet {pipeline : Pipeline} {path text : String} {d x : Value} {status : Status}
    (holds : session.files.Holds pipeline.statusPath d) (value : Value.ofYamlText text = .ok x)
    (h : (Status.ofValue d).set (.text path) x = (.ok (), status)) :
    Answers session (.status pipeline (.set path text)) status.toValue
  | statusRemove {pipeline : Pipeline} {path : String} {d : Value} {removed : Option Value}
    {status : Status} (holds : session.files.Holds pipeline.statusPath d)
    (h : (Status.ofValue d).remove (.text path) = (.ok removed, status)) :
    Answers session (.status pipeline (.remove path)) status.toValue
  | publish {pipeline : Pipeline} {out : Option String} {object d : Value} {resource : Resource}
    (object_holds : session.files.Holds pipeline.inputPath object)
    (wrapped : Resource.ofValue object = .ok resource)
    (holds : session.files.Holds pipeline.statusPath d) :
    Answers session (.status pipeline (.publish out))
      (Pipeline.merged resource (Status.ofValue d)).object

/-- The file that a command is meant to change. -/
def Command.target? : Command → Option String
  | .set _ _ file true | .remove _ file true => some file
  | .status pipeline (.set _ _) | .status pipeline (.remove _) => some pipeline.statusPath
  | .status _ (.publish out) => out
  | _ => none

/-- The format in which the document of a command is printed. -/
def Invocation.printedIn (invocation : Invocation) : Format :=
  match invocation.command with
  | .status _ (.publish _) => .yaml
  | _ => invocation.format

/-- A command has failed: it has printed nothing and changed no file. Only a write of a pipeline
that was refused may have made directories before. -/
structure Failed (session left : Session) (error : CommandError) : Prop where
  output : left.output = session.output
  contents : ∀ place, left.files.content? place = session.files.content? place
  files : (∀ path fault, error ≠ .failed (.pipeline (.unwritable path fault))) →
    left.files = session.files

/-- A command has succeeded: its document is in its target, or else at the end of the output, and
nothing else has changed. -/
inductive Succeeded (invocation : Invocation) (session left : Session) : Prop where
  | printed {v : Value} (target : invocation.command.target? = none)
    (answers : invocation.command.Answers session v) (files : left.files = session.files)
    (output : left.output = session.output ++ invocation.printedIn.render v)
  | written {file : String} {v : Value} (target : invocation.command.target? = some file)
    (answers : invocation.command.Answers session v) (output : left.output = session.output)
    (content : left.files.read file = .ok v.toYamlText.toUTF8)
    (others : ∀ place, place ≠ Files.placeOf session.files.home file →
      left.files.content? place = session.files.content? place)

/-- What a command has done, by how it ended. -/
def Done (invocation : Invocation) (session : Session) :
    Except CommandError Unit → Session → Prop
  | .ok (), left => Succeeded invocation session left
  | .error error, left => Failed session left error

/-- What holds of the result of a step and of the session that it leaves. -/
def Ends {α : Type} (x : Action (StateM Session) α) (session : Session)
    (P : Except CommandError α → Session → Prop) : Prop :=
  P (x.run.run session).1 (x.run.run session).2

variable {α : Type} {invocation : Invocation} {session start left : Session} {v : Value}

/-- Files and output are as they were; the input may have been read. -/
def Untouched (session left : Session) : Prop :=
  left.files = session.files ∧ left.output = session.output

theorem Untouched.failed (h : Untouched session left) (error : CommandError) :
    Failed session left error where
  output := h.2
  contents := fun place => by rw [h.1]
  files := fun _ => h.1

/-- A command that begins with a quiet step has done nothing if that fails, and goes on with files
and output as they were if it succeeds. -/
theorem ends_bind {x : Action (StateM Session) α} (quiet : Quiet x)
    {f : α → Action (StateM Session) Unit} (same : Untouched session start)
    (h : ∀ a left, x.run.run start = (.ok a, left) → Untouched session left →
      Ends (f a) left (Done invocation session)) :
    Ends (x >>= f) start (Done invocation session) := by
  have hquiet := quiet start
  rw [same.1, same.2] at hquiet
  rw [Ends, run_bind]
  rcases hrun : x.run.run start with ⟨error | a, left⟩
  · rw [hrun] at hquiet
    exact Untouched.failed hquiet error
  · rw [hrun] at hquiet
    exact h a left hrun hquiet

/-! ### The last steps -/

/-- Printing is the end of a command that has no file to change. -/
theorem ends_printValue (same : Untouched session start)
    (target : invocation.command.target? = none) (answers : invocation.command.Answers session v) :
    Ends (printValue invocation.printedIn v) start (Done invocation session) := by
  refine Succeeded.printed target answers same.1 ?_
  rw [← same.2]
  rfl

/-- A write to the target is the end of a command, whatever directories were made before. -/
theorem succeeded_of_write {file : String} {made written : Files}
    (target : invocation.command.target? = some file)
    (answers : invocation.command.Answers session v) (grown : Files.Grown session.files made)
    (hwrite : made.write file v.toYamlText.toUTF8 = .ok written)
    (files : left.files = written) (output : left.output = session.output) :
    Succeeded invocation session left := by
  obtain ⟨-, -, hput, hread⟩ := Files.of_write hwrite
  refine .written target answers output ?_ fun place hplace => ?_
  · rw [files, hread]
  · rw [← grown.kept.home] at hplace
    rw [files, hput, Files.content?_put_of_ne hplace, grown.contents]

/-- A write that is not preceded by directories: it is done, or it is refused and nothing has
changed. -/
theorem run_access_writeFile (file : String) (content : ByteArray) (session : Session) :
    (∃ written, session.files.write file content = .ok written ∧
      (FileAccess.writeFile file content : StateM Session (Except FileFault Unit)) session =
        (.ok (), { session with files := written })) ∨
    ∃ fault, (FileAccess.writeFile file content : StateM Session (Except FileFault Unit)) session =
      (.error fault, session) := by
  have hrun : (FileAccess.writeFile file content : StateM Session (Except FileFault Unit)) session =
      Session.withFiles (FileAccess.writeFile file content) session := rfl
  rw [hrun]
  cases hwrite : session.files.write file content with
  | ok written =>
    refine .inl ⟨written, rfl, ?_⟩
    simp only [Session.withFiles, FileAccess.writeFile, StateT.run, hwrite]
  | error fault =>
    refine .inr ⟨fault, ?_⟩
    simp only [Session.withFiles, FileAccess.writeFile, StateT.run, hwrite]

/-- A document that was changed is the end of a command, printed or in place of the one before. -/
theorem ends_finish {format : Format} {file : String} {inPlace : Bool}
    (same : Untouched session start) (hformat : invocation.printedIn = format)
    (target : invocation.command.target? = if inPlace then some file else none)
    (answers : invocation.command.Answers session v) :
    Ends (finish format file inPlace v) start (Done invocation session) := by
  cases inPlace with
  | false =>
    subst hformat
    exact ends_printValue same target answers
  | true =>
    by_cases hinput : file = inputName
    · rw [finish, if_neg (by simp), if_pos hinput]
      exact same.failed _
    · rw [finish, if_neg (by simp), if_neg hinput, Ends, run_lift_bind]
      rcases run_access_writeFile file v.toYamlText.toUTF8 start with
        ⟨written, hwrite, hrun⟩ | ⟨fault, hrun⟩
      · rw [hrun]
        rw [same.1] at hwrite
        exact succeeded_of_write target answers (.refl _) hwrite rfl same.2
      · rw [hrun]
        exact same.failed _

/-- A status that is written in place of the one before is the end of a command. -/
theorem ends_writeStatus {pipeline : Pipeline} {status : Status} (same : Untouched session start)
    (target : invocation.command.target? = some pipeline.statusPath)
    (answers : invocation.command.Answers session status.toValue) :
    Ends (inPipeline (pipeline.writeStatus status)) start (Done invocation session) := by
  rw [Ends, run_inPipeline, Pipeline.writeStatus]
  rcases writeFile_cases pipeline.statusPath status.toValue.toYamlText.toUTF8 start with
    ⟨made, written, hgrown, hwrite, hrun⟩ | ⟨fault, written, hgrown, hrun⟩
  · rw [hrun]
    rw [same.1] at hgrown
    exact succeeded_of_write target answers hgrown hwrite rfl same.2
  · rw [hrun]
    rw [same.1] at hgrown
    exact ⟨same.2, hgrown.contents, fun h => absurd rfl (h pipeline.statusPath fault)⟩

/-- An object that is published, to a file or to the output, is the end of a command. -/
theorem ends_store {out : Option String} {target : ObjectRef} (same : Untouched session start)
    (hformat : invocation.printedIn = .yaml) (htarget : invocation.command.target? = out)
    (answers : invocation.command.Answers session v) :
    Ends (inPipeline (store out target v)) start (Done invocation session) := by
  cases out with
  | none =>
    refine Succeeded.printed htarget answers same.1 ?_
    rw [hformat, ← same.2]
    rfl
  | some file =>
    rw [Ends, run_inPipeline, store, run_lift_bind]
    rcases run_access_writeFile file v.toYamlText.toUTF8 start with
      ⟨written, hwrite, hrun⟩ | ⟨fault, hrun⟩
    · rw [hrun]
      rw [same.1] at hwrite
      exact succeeded_of_write htarget answers (.refl _) hwrite rfl same.2
    · rw [hrun]
      exact same.failed _

/-! ### Whole commands -/

theorem ends_statusCommand (format : Format) (pipeline : Pipeline) (command : StatusCommand)
    (session : Session) :
    Ends (command.run format pipeline) session
      (Done ⟨format, .status pipeline command⟩ session) := by
  cases command with
  | get path =>
    refine ends_bind (quiet_readStatus pipeline) ⟨rfl, rfl⟩ fun status left hread same => ?_
    obtain ⟨⟨d, holds, rfl⟩, -⟩ := run_readStatus_eq_ok.1 hread
    cases path with
    | none => exact ends_printValue same rfl (.status holds)
    | some path =>
      refine ends_bind (quiet_found path _) same fun v left hfound same => ?_
      obtain ⟨hget, -⟩ := run_found_eq_ok.1 hfound
      exact ends_printValue same rfl (.statusGet holds hget)
  | set path text =>
    refine ends_bind (quiet_readStatus pipeline) ⟨rfl, rfl⟩ fun status left hread same => ?_
    obtain ⟨⟨d, holds, rfl⟩, -⟩ := run_readStatus_eq_ok.1 hread
    refine ends_bind (quiet_orFail _ _) same fun x left hvalue same => ?_
    obtain ⟨hx, -⟩ := run_orFail_eq_ok.1 hvalue
    refine ends_bind (quiet_orFail _ _) same fun _ left hset same => ?_
    obtain ⟨hok, -⟩ := run_orFail_eq_ok.1 hset
    exact ends_writeStatus same rfl (.statusSet holds hx (Prod.ext hok rfl))
  | remove path =>
    refine ends_bind (quiet_readStatus pipeline) ⟨rfl, rfl⟩ fun status left hread same => ?_
    obtain ⟨⟨d, holds, rfl⟩, -⟩ := run_readStatus_eq_ok.1 hread
    refine ends_bind (quiet_orFail _ _) same fun removed left hremove same => ?_
    obtain ⟨hok, -⟩ := run_orFail_eq_ok.1 hremove
    exact ends_writeStatus same rfl (.statusRemove holds (Prod.ext hok rfl))
  | publish out =>
    refine ends_bind (quiet_readResource pipeline) ⟨rfl, rfl⟩ fun resource left hread same => ?_
    obtain ⟨⟨object, object_holds, wrapped⟩, rfl⟩ := run_readResource_eq_ok.1 hread
    refine ends_bind (quiet_readStatus pipeline) same fun status left hread same => ?_
    obtain ⟨⟨d, holds, rfl⟩, -⟩ := run_readStatus_eq_ok.1 hread
    exact ends_store same rfl rfl (.publish object_holds wrapped holds)

theorem ends_command (format : Format) (command : Command) (session : Session) :
    Ends (command.run format) session (Done ⟨format, command⟩ session) := by
  cases command with
  | get path file =>
    refine ends_bind (quiet_readDocument file) ⟨rfl, rfl⟩ fun d left hread same => ?_
    obtain ⟨holds, -⟩ := run_readDocument_eq_ok.1 hread
    refine ends_bind (quiet_found path _) same fun v left hfound same => ?_
    obtain ⟨hget, -⟩ := run_found_eq_ok.1 hfound
    exact ends_printValue same rfl (.get holds hget)
  | set path text file inPlace =>
    refine ends_bind (quiet_readDocument file) ⟨rfl, rfl⟩ fun d left hread same => ?_
    obtain ⟨holds, -⟩ := run_readDocument_eq_ok.1 hread
    refine ends_bind (quiet_orFail _ _) same fun x left hvalue same => ?_
    obtain ⟨hx, -⟩ := run_orFail_eq_ok.1 hvalue
    refine ends_bind (quiet_orFail _ _) same fun _ left hset same => ?_
    obtain ⟨hok, -⟩ := run_orFail_eq_ok.1 hset
    exact ends_finish same rfl (by cases inPlace <;> rfl) (.set holds hx (Prod.ext hok rfl))
  | remove path file inPlace =>
    refine ends_bind (quiet_readDocument file) ⟨rfl, rfl⟩ fun d left hread same => ?_
    obtain ⟨holds, -⟩ := run_readDocument_eq_ok.1 hread
    refine ends_bind (quiet_orFail _ _) same fun removed left hremove same => ?_
    obtain ⟨hok, -⟩ := run_orFail_eq_ok.1 hremove
    exact ends_finish same rfl (by cases inPlace <;> rfl) (.remove holds (Prod.ext hok rfl))
  | merge target source =>
    refine ends_bind (quiet_readDocument target) ⟨rfl, rfl⟩ fun existing left hread same => ?_
    obtain ⟨holds, rfl⟩ := run_readDocument_eq_ok.1 hread
    refine ends_bind (quiet_readDocument source) same fun incoming left hread same => ?_
    obtain ⟨source_holds, -⟩ := run_readDocument_eq_ok.1 hread
    exact ends_printValue same rfl (.merge holds source_holds)
  | status pipeline command => exact ends_statusCommand format pipeline command session

/-! ### The program -/

/-- How the program ends, and what it has done to the session. -/
inductive Ended (environment : String → Option String) (arguments : List String)
    (session : Session) : Outcome → Session → Prop where
  | misused (h : Invocation.ofArguments environment arguments = .error .misuse) :
    Ended environment arguments session .misused session
  | version (h : Invocation.ofArguments environment arguments = .error .version) :
    Ended environment arguments session .done
      { session with output := session.output ++ versionText }
  | failed {invocation : Invocation} {error : CommandError} {left : Session}
    (h : Invocation.ofArguments environment arguments = .ok invocation)
    (failed : Failed session left error) :
    Ended environment arguments session (.failed error) left
  | succeeded {invocation : Invocation} {left : Session}
    (h : Invocation.ofArguments environment arguments = .ok invocation)
    (succeeded : Succeeded invocation session left) :
    Ended environment arguments session .done left

theorem execute_of_ok {environment : String → Option String} {arguments : List String}
    {invocation : Invocation} (h : Invocation.ofArguments environment arguments = .ok invocation)
    (session : Session) :
    (execute environment arguments : StateM Session Outcome).run session =
      match (invocation.command.run invocation.format :
        Action (StateM Session) Unit).run.run session with
      | (.ok (), left) => (.done, left)
      | (.error error, left) => (.failed error, left) := by
  rw [execute, h]
  dsimp only
  rw [StateT.run_bind]
  rcases (invocation.command.run invocation.format :
    Action (StateM Session) Unit).run.run session with ⟨error | ⟨⟩, left⟩ <;> rfl

/-- However the program is called and whatever the files and the input are: if it fails it has
printed nothing and changed no file, and if it succeeds it has given one document, the one that the
library makes of what was read, to one file or to the output. -/
theorem execute_ended (environment : String → Option String) (arguments : List String)
    (session : Session) : Ended environment arguments session
      ((execute environment arguments : StateM Session Outcome).run session).1
      ((execute environment arguments : StateM Session Outcome).run session).2 := by
  cases h : Invocation.ofArguments environment arguments with
  | error stop =>
    rw [execute, h]
    cases stop with
    | misuse => exact .misused h
    | version => exact .version h
  | ok invocation =>
    have hends := ends_command invocation.format invocation.command session
    rw [execute_of_ok h]
    rw [Ends] at hends
    rcases hrun : (invocation.command.run invocation.format :
      Action (StateM Session) Unit).run.run session with ⟨error | ⟨⟩, left⟩
    · rw [hrun] at hends
      exact .failed h hends
    · rw [hrun] at hends
      exact .succeeded h hends

theorem choose_status : Yaml.ScalarStyle.choose true "status" = .plain := by
  have hsign : Yaml.ScalarStyle.beginsSign "status".toList = false := by
    simp only [Yaml.ScalarStyle.beginsSign, String.contains_char_eq]
    decide
  have hplain : Yaml.ScalarStyle.allowsPlain "status".toList = true := by
    rw [Yaml.ScalarStyle.allowsPlain, hsign]
    decide
  have hwanted : Yaml.ScalarStyle.wanted "status" = .plain := by decide
  have hlines : Yaml.ScalarStyle.hasLines "status".toList = false := by decide
  simp only [Yaml.ScalarStyle.choose, hlines, hwanted, hplain]
  rfl

/-- An object with an empty status is one text as YAML and another as JSON. -/
theorem toYamlText_ne_render_json :
    let v : Value := .mapping [("status", .mapping [])]
    v.toYamlText ≠ Format.json.render v := by
  intro v
  have hyaml : v.toYamlText = "status: \x7b\x7d\n" := by
    have hsimple : Yaml.Pen.isSimpleKey "status" = true := by decide
    simp only [v, Value.toYamlText, Yaml.Pen.value, Yaml.Pen.entries, Yaml.Pen.key, hsimple,
      Yaml.Pen.text, choose_status]
    rfl
  have hjson : Format.json.render v = "\x7b\n  \x22status\x22: \x7b\x7d\n\x7d\n" := by cbv
  rw [hyaml, hjson]
  decide

/-- A published object is printed as YAML, also where JSON was asked for. -/
theorem execute_publish_json :
    let environment (name : String) : Option String :=
      if name = "KRATIX_INPUT_DIR" then some "i"
      else if name = "KRATIX_METADATA_DIR" then some "m"
      else none
    let arguments := ["-o", "json", "status", "publish"]
    let files : Files := ⟨[], [(["i"], .directory),
      (["i", "object.yaml"], .file "\x7b\x7d".toUTF8), (["m"], .directory),
      (["m", "status.yaml"], .file "".toUTF8)]⟩
    let session := Session.start files .empty
    let pipeline : Pipeline := ⟨"i", "m", "/kratix/output", "object.yaml", .empty⟩
    let invocation : Invocation := ⟨.json, .status pipeline (.publish none)⟩
    let v : Value := .mapping [("status", .mapping [])]
    Invocation.ofArguments environment arguments = .ok invocation ∧
      invocation.command.target? = none ∧ invocation.command.Answers session v ∧
      ((execute environment arguments : StateM Session Outcome).run session).1 = .done ∧
      ((execute environment arguments : StateM Session Outcome).run session).2.output ≠
        session.output ++ invocation.format.render v := by
  intro environment arguments files session pipeline invocation v
  have harguments : Invocation.ofArguments environment arguments = .ok invocation := rfl
  have hobject : session.files.Holds pipeline.inputPath (.mapping []) := by
    have hinput : FilePath.join "i" "object.yaml" = "i/object.yaml" := by decide
    refine ⟨"\x7b\x7d".toUTF8, ?_, by cbv⟩
    rw [Pipeline.inputPath, hinput]
    rfl
  have hstatus : session.files.Holds pipeline.statusPath .null := by
    have hmetadata : FilePath.join "m" "status.yaml" = "m/status.yaml" := by decide
    refine ⟨"".toUTF8, ?_, by cbv⟩
    rw [Pipeline.statusPath, hmetadata]
    rfl
  have hwrapped : Resource.ofValue (.mapping []) = .ok ⟨.mapping [], .ofObject (.mapping [])⟩ := rfl
  have hrun : (invocation.command.run invocation.format :
      Action (StateM Session) Unit).run.run session =
        (.ok (), { session with output := session.output ++ v.toYamlText }) :=
    run_bind_eq_ok.2 ⟨_, session, run_readResource_eq_ok.2 ⟨⟨_, hobject, hwrapped⟩, rfl⟩,
      run_bind_eq_ok.2 ⟨_, session, run_readStatus_eq_ok.2 ⟨⟨_, hstatus, rfl⟩, rfl⟩, rfl⟩⟩
  refine ⟨harguments, rfl, .publish hobject hwrapped hstatus, ?_, ?_⟩
  · rw [execute_of_ok harguments, hrun]
  · rw [execute_of_ok harguments, hrun]
    intro h
    exact toYamlText_ne_render_json ((String.append_right_inj _).1 h)

end Cli

end DocPath
