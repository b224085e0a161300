import DocPath.Proofs.CommandEffects
import DocPath.Proofs.EditedOrder
import DocPath.Proofs.NestingDepth
import DocPath.Proofs.ReadBack
import DocPath.Proofs.StatusRoot
import Mathlib

/-!
# Setting and then getting

Two calls of the program share nothing but the files. One changes a document in place, in a file
that is named or in the status file of a pipeline, and writes it as text; another one reads that
text. If the text presents the document that was written, the second call is answered from that
document, and so by what reads along paths find after writes.
-/

namespace DocPath

/-- Two paths part at a step where both go by key. -/
def Path.PartByKey (p q : String) : Prop :=
  ∃ (path other : Path) (common pr qr : List Step) (s t : String),
    Path.read p = .ok path ∧ Path.read q = .ok other ∧ s ≠ t ∧
      path.steps = common ++ .key s :: pr ∧ other.steps = common ++ .key t :: qr

/-- The last step of a path goes by key. -/
def Path.EndsByKey (p : String) : Prop :=
  ∃ (path : Path) (name : String), Path.read p = .ok path ∧ path.last = .key name

namespace Value

variable {d v : Value} {p q : String} {path : Path}

/-! ### Reading after a write -/

theorem get_text (h : Path.read p = .ok path) (d : Value) :
    d.get (.text p) = .ok (d.getAt path) := by
  rw [get, Address.resolve, h]
  rfl

theorem set_text (h : Path.read p = .ok path) (d v : Value) :
    d.set (.text p) v = d.setAt path v := by
  rw [set, Address.resolve, h]

theorem remove_text (h : Path.read p = .ok path) (d : Value) :
    d.remove (.text p) = d.removeAt path := by
  rw [remove, Address.resolve, h]

/-- What was set somewhere is there. -/
theorem get_set_self (h : (d.set (.text p) v).1 = .ok ()) :
    (d.set (.text p) v).2.get (.text p) = .ok (some v) := by
  rcases Path.read_ok_or_invalidPath p with ⟨path, hpath⟩ | ⟨fault, hfault⟩
  · rw [set_text hpath] at h ⊢
    obtain ⟨node, -, hget, -⟩ := zoom_ok _ ((editAt_eq_ok _).1 (Prod.ext h rfl))
    rw [get_text hpath, getAt]
    exact congrArg Except.ok hget
  · rw [set, Address.resolve, hfault] at h
    cases h

/-- Where the path to be read parts from it by key, all is as it was. -/
theorem get_set_of_part (part : Path.PartByKey p q) (h : (d.set (.text p) v).1 = .ok ()) :
    (d.set (.text p) v).2.get (.text q) = d.get (.text q) := by
  obtain ⟨path, other, common, pr, qr, s, t, hp, hq, hst, epath, eother⟩ := part
  rw [set_text hp] at h ⊢
  have hzoom := (editAt_eq_ok _).1 (Prod.ext h rfl)
  rw [epath] at hzoom
  have hread := get?_beside_zoom (fun e => hst (Step.key.inj e)) qr hzoom
  rw [get_text hq, get_text hq, getAt, getAt, eother]
  exact congrArg Except.ok hread

/-- What a key led to is not there after a removal, whether it was there before or not. -/
theorem get_remove_self (key : Path.EndsByKey p) (d : Value) :
    (d.remove (.text p)).2.get (.text p) = .ok none := by
  obtain ⟨path, name, hp, hlast⟩ := key
  rw [remove_text hp, get_text hp]
  cases hget : d.getAt path with
  | none =>
    obtain ⟨i, step, node, -, -, -, hremove⟩ := removeAt_of_getAt_none hget
    rw [hremove, hget]
  | some x =>
    obtain ⟨node, -, -, hremove⟩ := removeAt_of_getAt hget
    rw [hremove, (getAt_removeAt_key hlast hremove path).1 (List.prefix_refl _)]

end Value

namespace Cli

/-- A call of the program. -/
structure Call where
  environment : String → Option String
  arguments : List String

/-- What a call asks for. -/
def Call.Asks (call : Call) (format : Format) (command : Command) : Prop :=
  Invocation.ofArguments call.environment call.arguments = .ok ⟨format, command⟩

/-- How a call ends, and the session that it leaves. -/
def Call.run (call : Call) (session : Session) : Outcome × Session :=
  (execute call.environment call.arguments : StateM Session Outcome).run session

/-- A change that can be made in place. -/
inductive Change where
  | set (path text : String)
  | remove (path : String)

/-- A change makes one document of another. -/
inductive Change.Makes : Change → Value → Value → Prop where
  | set {path text : String} {d x made : Value} (value : Value.ofYamlText text = .ok x)
    (h : d.set (.text path) x = (.ok (), made)) : Makes (.set path text) d made
  | remove {path : String} {d made : Value} {removed : Option Value}
    (h : d.remove (.text path) = (.ok removed, made)) : Makes (.remove path) d made

/-- A file whose document can be read and changed in place. -/
inductive DocumentFile where
  | named (name : String)
  /-- The status file of a pipeline. -/
  | status (pipeline : Pipeline)

namespace DocumentFile

def name : DocumentFile → String
  | .named name => name
  | .status pipeline => pipeline.statusPath

/-- The command that prints what lies at a path. -/
def get (path : String) : DocumentFile → Command
  | .named name => .get path name
  | .status pipeline => .status pipeline (.get (some path))

/-- The command that changes the document in place. -/
def edit : Change → DocumentFile → Command
  | .set path text, .named name => .set path text name true
  | .set path text, .status pipeline => .status pipeline (.set path text)
  | .remove path, .named name => .remove path name true
  | .remove path, .status pipeline => .status pipeline (.remove path)

/-- A document is in the file; a status has to be a mapping. -/
structure Holds (file : DocumentFile) (files : Files) (d : Value) : Prop where
  holds : files.Holds file.name d
  mapping : ∀ pipeline, file = .status pipeline → d.isMapping = true

/-- Whoever asks for a path of the document is answered with one value, in the format that was asked
for, or is told that nothing is there. That changes no file and reads no input. -/
def Shows (file : DocumentFile) (path : String) (answer : Option Value) (files : Files) : Prop :=
  ∀ (call : Call) (format : Format) (input : ByteArray), call.Asks format (file.get path) →
    call.run (.start files input) = match answer with
      | some v => (.done, ⟨files, input, format.render v⟩)
      | none => (.failed (.failed (.document (.notFound path))), ⟨files, input, ""⟩)

end DocumentFile

variable {file : DocumentFile} {files : Files} {d v : Value} {p name : String}
  {format : Format} {input : ByteArray} {left : Session} {call : Call}

/-! ### What a reading call is answered -/

theorem holds_start (h : name ≠ inputName) (input : ByteArray) :
    (Session.start files input).Holds name d ↔ files.Holds name d := by
  rw [Session.Holds, Session.content, if_neg h]
  rfl

/-- A document that is found in a file is shown from there. -/
theorem DocumentFile.Holds.run_get (held : file.Holds files d) (onDisk : file ≠ .named inputName)
    (p : String) (format : Format) (input : ByteArray) :
    ((file.get p).run format : Action (StateM Session) Unit).run.run (.start files input) =
      (found p (d.get (.text p)) >>= printValue format :
        Action (StateM Session) Unit).run.run (.start files input) := by
  cases file with
  | named name =>
    have hname : name ≠ inputName := fun h => onDisk (congrArg _ h)
    have hread := run_readDocument_eq_ok.2
      ⟨(holds_start hname input).2 held.holds, (if_neg hname).symm⟩
    rw [DocumentFile.get, Command.run, run_bind, hread]
    rfl
  | status pipeline =>
    have hread : (inPipeline (pipeline.readStatus :
        ExceptT Failure (StateM Session) Status)).run.run (.start files input) =
          (.ok (Status.ofValue d), .start files input) :=
      run_readStatus_eq_ok.2 ⟨⟨d, held.holds, rfl⟩, rfl⟩
    have hget : (Status.ofValue d).get (.text p) = d.get (.text p) := by
      rw [Status.get_eq, Status.toValue_ofValue (held.mapping pipeline rfl)]
    rw [← hget, DocumentFile.get, Command.run, StatusCommand.run, run_bind, hread]
    rfl

theorem DocumentFile.Holds.shows (held : file.Holds files d) (onDisk : file ≠ .named inputName)
    {answer : Option Value} (h : d.get (.text p) = .ok answer) : file.Shows p answer files := by
  intro call format input asks
  have hrun := held.run_get onDisk p format input
  rw [h] at hrun
  rw [Call.run, execute_of_ok asks, hrun]
  cases answer with
  | none => rfl
  | some v =>
    have hprint : (found p (.ok (some v)) >>= printValue format :
        Action (StateM Session) Unit).run.run (.start files input) =
          (.ok (), ⟨files, input, "" ++ format.render v⟩) := rfl
    rw [hprint, String.empty_append]

/-! ### What a changing call leaves -/

/-- A call that is done has done what its command is to do. -/
theorem Call.run_eq_done {command : Command} {session : Session} (asks : call.Asks format command)
    (done : call.run session = (.done, left)) :
    (command.run format : Action (StateM Session) Unit).run.run session = (.ok (), left) := by
  rw [Call.run, execute_of_ok asks] at done
  rcases hrun : (command.run format : Action (StateM Session) Unit).run.run session with
    ⟨error | ⟨⟩, after⟩
  · rw [hrun] at done
    cases done
  · rw [hrun] at done
    cases done
    rfl

/-- A command with a target that succeeds leaves its document there. -/
theorem Command.written {command : Command} {session : Session}
    (hrun : (command.run format : Action (StateM Session) Unit).run.run session = (.ok (), left))
    (target : command.target? = some name) :
    ∃ v, command.Answers session v ∧ left.files.read name = .ok v.toYamlText.toUTF8 := by
  have hends := ends_command format command session
  rw [Ends, hrun] at hends
  cases hends with
  | printed none => cases target.symm.trans none
  | written some answers _ content =>
    cases target.symm.trans some
    exact ⟨_, answers, content⟩

/-- The input cannot be changed in place. -/
theorem DocumentFile.onDisk {change : Change} {session : Session}
    (hrun : ((file.edit change).run format : Action (StateM Session) Unit).run.run session =
      (.ok (), left)) : file ≠ .named inputName := by
  rintro rfl
  -- whatever is read, it is the last step that refuses
  cases change with
  | set path text =>
    obtain ⟨d, between, -, hrun⟩ := run_bind_eq_ok.1 hrun
    obtain ⟨x, between, -, hrun⟩ := run_bind_eq_ok.1 hrun
    obtain ⟨⟨⟩, between, -, hrun⟩ := run_bind_eq_ok.1 hrun
    cases hrun
  | remove path =>
    obtain ⟨d, between, -, hrun⟩ := run_bind_eq_ok.1 hrun
    obtain ⟨removed, between, -, hrun⟩ := run_bind_eq_ok.1 hrun
    cases hrun

theorem DocumentFile.target?_edit (change : Change) (file : DocumentFile) :
    (file.edit change).target? = some file.name := by
  cases change <;> cases file <;> rfl

/-- What a change in place answers is what it makes of the document. -/
theorem DocumentFile.Holds.makes (held : file.Holds files d) (onDisk : file ≠ .named inputName)
    {change : Change} (answers : (file.edit change).Answers (.start files input) v) :
    change.Makes d v := by
  obtain ⟨hfile, hmapping⟩ := held
  cases file with
  | named name =>
    have hname : name ≠ inputName := fun h => onDisk (congrArg _ h)
    cases change with
    | set path text => cases answers with
      | set holds value h =>
        cases hfile.unique ((holds_start hname input).1 holds)
        exact .set value h
    | remove path => cases answers with
      | remove holds h =>
        cases hfile.unique ((holds_start hname input).1 holds)
        exact .remove h
  | status pipeline =>
    -- with a mapping at its root the document is edited as the status is
    have hroot := Status.toValue_ofValue (hmapping pipeline rfl)
    cases change with
    | set path text => cases answers with
      | @statusSet _ _ _ _ x status holds value h =>
        cases hfile.unique holds
        obtain ⟨hok, hleft⟩ := Status.set_eq (Status.ofValue d) (.text path) x
        rw [h, hroot] at hok hleft
        exact .set value (Prod.ext hok.symm hleft.symm)
    | remove path => cases answers with
      | statusRemove holds h =>
        cases hfile.unique holds
        obtain ⟨hok, hleft⟩ := Status.remove_eq (Status.ofValue d) (.text path)
        rw [h, hroot] at hok hleft
        exact .remove (Prod.ext hok.symm hleft.symm)

theorem Change.Makes.ordered {change : Change} (h : change.Makes d v) (ordered : d.Ordered) :
    v.Ordered := by
  cases h with
  | @set path _ _ _ _ value h =>
    have hset := ordered.set (Value.ordered_of_ofYamlText value) (.text path)
    rwa [h] at hset
  | @remove path _ _ _ h =>
    have hremove := ordered.remove (.text path)
    rwa [h] at hremove

theorem Change.Makes.isMapping {change : Change} (h : change.Makes d v)
    (mapping : d.isMapping = true) : v.isMapping = true := by
  cases h with
  | @set path _ _ x _ _ h =>
    have hset := Value.isMapping_set mapping (.text path) x
    rwa [h] at hset
  | @remove path _ _ _ h =>
    have hremove := Value.isMapping_remove mapping (.text path)
    rwa [h] at hremove

/-- The document that a changing call has made is in the file, if its text presents it. -/
theorem DocumentFile.Holds.changed (held : file.Holds files d) {change : Change}
    (asks : call.Asks format (file.edit change))
    (done : call.run (.start files input) = (.done, left)) :
    ∃ v, change.Makes d v ∧ file ≠ .named inputName ∧
      (v.ReadsBack → v.Within Yaml.nestingLimit → file.Holds left.files v) := by
  have hrun := Call.run_eq_done asks done
  have onDisk := onDisk hrun
  obtain ⟨v, answers, hread⟩ := Command.written hrun (target?_edit change file)
  have hmakes := held.makes onDisk answers
  refine ⟨v, hmakes, onDisk, fun readsBack within => ⟨⟨_, hread, ?_⟩, fun pipeline h => ?_⟩⟩
  · obtain ⟨content, -, hvalue⟩ := held.holds
    exact readsBack.ofYamlBytes (hmakes.ordered (Value.ordered_of_ofYamlBytes hvalue)) within
  · exact hmakes.isMapping (held.mapping pipeline h)

/-- After a value was set at a path in place it is shown there, in whatever format, and what parts
from the path by key is shown as before. After a removal by key nothing is shown there. The text
that was written has to present the document that the change has made. -/
theorem shows_of_edit (held : file.Holds files d)
    (done : call.run (.start files input) = (.done, left)) :
    (∀ text v, call.Asks format (file.edit (.set p text)) → Value.ofYamlText text = .ok v →
      (d.set (.text p) v).2.ReadsBack → (d.set (.text p) v).2.Within Yaml.nestingLimit →
      file.Shows p (some v) left.files ∧
      ∀ q, Path.PartByKey p q →
        ∃ answer, file.Shows q answer files ∧ file.Shows q answer left.files) ∧
    (call.Asks format (file.edit (.remove p)) → Path.EndsByKey p →
      (d.remove (.text p)).2.ReadsBack → file.Shows p none left.files) := by
  constructor
  · intro text v asks value readsBack within
    obtain ⟨made, hmakes, onDisk, hholds⟩ := held.changed asks done
    cases hmakes with
    | set again hset =>
      cases value.symm.trans again
      have hok : (d.set (.text p) v).1 = .ok () := congrArg Prod.fst hset
      rw [hset] at readsBack within
      have hafter := hholds readsBack within
      have hself := Value.get_set_self hok
      rw [hset] at hself
      refine ⟨hafter.shows onDisk hself, fun q part => ?_⟩
      have hbeside := Value.get_set_of_part part hok
      rw [hset] at hbeside
      obtain ⟨_, other, _, _, _, _, _, -, hq, -⟩ := part
      have hbefore := Value.get_text hq d
      exact ⟨_, held.shows onDisk hbefore, hafter.shows onDisk (hbeside.trans hbefore)⟩
  · intro asks key readsBack
    obtain ⟨made, hmakes, onDisk, hholds⟩ := held.changed asks done
    cases hmakes with
    | remove hremove =>
      obtain ⟨content, -, hvalue⟩ := held.holds
      have within := (Value.within_of_ofYamlBytes hvalue).remove (.text p)
      rw [hremove] at readsBack within
      have hafter := hholds readsBack within
      have hgone := Value.get_remove_self key d
      rw [hremove] at hgone
      exact hafter.shows onDisk hgone

/-- A key is set in a file, and another one is removed from a status. -/
theorem shows_of_edit_flat :
    let environment (name : String) : Option String :=
      if name = "KRATIX_METADATA_DIR" then some "m" else none
    let holding (content : ByteArray) : Files := ⟨[], [(["f"], .file content), (["m"], .directory),
      (["m", "status.yaml"], .file content)]⟩
    let files := holding "a: 0\n".toUTF8
    let d : Value := .mapping [("a", .int 0)]
    let named : DocumentFile := .named "f"
    let status : DocumentFile :=
      .status ⟨"/kratix/input", "m", "/kratix/output", "object.yaml", .empty⟩
    let setting : Call := ⟨environment, ["set", "b", "[]", "-f", "f", "--in-place"]⟩
    let getting : Call := ⟨environment, ["-o", "json", "get", "b", "-f", "f"]⟩
    let removing : Call := ⟨environment, ["status", "remove", "a"]⟩
    let set := (d.set (.text "b") (.sequence [])).2
    let removed := (d.remove (.text "a")).2
    let after : Session := ⟨files.put ["f"] (.file set.toYamlText.toUTF8), .empty, ""⟩
    let later : Session :=
      ⟨files.put ["m", "status.yaml"] (.file removed.toYamlText.toUTF8), .empty, ""⟩
    (named.Holds files d ∧ setting.run (.start files .empty) = (.done, after) ∧
      setting.Asks .yaml (named.edit (.set "b" "[]")) ∧ Value.ofYamlText "[]" = .ok (.sequence []) ∧
      set.ReadsBack ∧ set.Within Yaml.nestingLimit ∧ Path.PartByKey "b" "a") ∧
    (status.Holds files d ∧ removing.run (.start files .empty) = (.done, later) ∧
      removing.Asks .yaml (status.edit (.remove "a")) ∧ Path.EndsByKey "a" ∧
      removed.ReadsBack) ∧
    getting.run (.start after.files .empty) =
      (.done, ⟨after.files, .empty, Format.json.render (.sequence [])⟩) ∧
    (∃ answer, named.Shows "a" answer files ∧ named.Shows "a" answer after.files) ∧
    status.Shows "a" none later.files := by
  intro environment holding files d named status setting getting removing set removed after later
  have hread : Value.ofYamlBytes "a: 0\n".toUTF8 = .ok d := by cbv
  have hvalue : Value.ofYamlText "[]" = .ok (.sequence []) := by cbv
  have hmetadata : FilePath.join "m" "status.yaml" = "m/status.yaml" := by decide
  -- contents stay variables in what follows, so that only names and places are evaluated
  have hnamed : named.Holds files d := by
    have hcontent (content : ByteArray) : (holding content).read "f" = .ok content := rfl
    exact ⟨⟨_, hcontent _, hread⟩, fun pipeline h => DocumentFile.noConfusion h⟩
  have hstatus : status.Holds files d := by
    have hcontent (content : ByteArray) :
        (holding content).read "m/status.yaml" = .ok content := rfl
    rw [← hmetadata] at hcontent
    exact ⟨⟨_, hcontent _, hread⟩, fun pipeline h => rfl⟩
  have setting_asks : setting.Asks .yaml (named.edit (.set "b" "[]")) := rfl
  have removing_asks : removing.Asks .yaml (status.edit (.remove "a")) := rfl
  have hset : setting.run (.start files .empty) = (.done, after) := by
    have hwrite (content : ByteArray) (v : Value) :
        (finish .yaml "f" true v : Action (StateM Session) Unit).run.run
          (.start (holding content) .empty) =
        (.ok (), ⟨(holding content).put ["f"] (.file v.toYamlText.toUTF8), .empty, ""⟩) := rfl
    have hrun : ((named.edit (.set "b" "[]")).run .yaml :
        Action (StateM Session) Unit).run.run (.start files .empty) = (.ok (), after) :=
      run_bind_eq_ok.2 ⟨d, _, run_readDocument_eq_ok.2
          ⟨(holds_start (by decide) .empty).2 hnamed.holds, rfl⟩,
        run_bind_eq_ok.2 ⟨.sequence [], _, run_orFail_eq_ok.2 ⟨hvalue, rfl⟩,
          run_bind_eq_ok.2 ⟨(), _, run_orFail_eq_ok.2 ⟨rfl, rfl⟩, hwrite _ _⟩⟩⟩
    rw [Call.run, execute_of_ok setting_asks, hrun]
  have hremove : removing.run (.start files .empty) = (.done, later) := by
    have hwrite (content bytes : ByteArray) :
        (inPipeline (Pipeline.writeFile "m/status.yaml" bytes) :
          Action (StateM Session) Unit).run.run (.start (holding content) .empty) =
        (.ok (), ⟨(holding content).put ["m", "status.yaml"] (.file bytes), .empty, ""⟩) := rfl
    rw [← hmetadata] at hwrite
    have hrun : ((status.edit (.remove "a")).run .yaml :
        Action (StateM Session) Unit).run.run (.start files .empty) = (.ok (), later) :=
      run_bind_eq_ok.2 ⟨_, _, run_readStatus_eq_ok.2 ⟨⟨d, hstatus.holds, rfl⟩, rfl⟩,
        run_bind_eq_ok.2 ⟨some (.int 0), _, run_orFail_eq_ok.2 ⟨rfl, rfl⟩, hwrite _ _⟩⟩
    rw [Call.run, execute_of_ok removing_asks, hrun]
  have set_reads : set.ReadsBack := by
    have hparse : Yaml.Document.parse set.toYamlText.toList = ⟨some (.mapping .none
        [(.scalar .none true "a", .scalar .none true "0"),
          (.scalar .none true "b", .sequence .none [])]), true⟩ := by cbv
    refine .of_parse hparse (.mapping ?_)
    exact .cons (.scalar (m := .text) (by cbv) rfl) (.scalar (m := .integer 0) (by cbv) rfl)
      (.cons (.scalar (m := .text) (by cbv) rfl) (.sequence .nil) .nil)
  have removed_reads : removed.ReadsBack := by
    have hparse : Yaml.Document.parse removed.toYamlText.toList =
        ⟨some (.mapping .none []), true⟩ := by cbv
    exact .of_parse hparse (.mapping .nil)
  have set_within : set.Within Yaml.nestingLimit := by
    change Value.Within Yaml.nestingLimit (.mapping [("a", .int 0), ("b", .sequence [])])
    simp [Value.Within, Yaml.nestingLimit]
  have hpart : Path.PartByKey "b" "a" := ⟨⟨[.key "b"], by simp⟩, ⟨[.key "a"], by simp⟩,
    [], [], [], "b", "a", rfl, rfl, by decide, rfl, rfl⟩
  have hkey : Path.EndsByKey "a" := ⟨⟨[.key "a"], by simp⟩, "a", rfl, rfl⟩
  obtain ⟨shown, beside⟩ :=
    (shows_of_edit hnamed hset).1 _ _ setting_asks hvalue set_reads set_within
  have gone := (shows_of_edit hstatus hremove).2 removing_asks hkey removed_reads
  exact ⟨⟨hnamed, hset, setting_asks, hvalue, set_reads, set_within, hpart⟩,
    ⟨hstatus, hremove, removing_asks, hkey, removed_reads⟩,
    shown getting .json .empty rfl, beside "a" hpart, gone⟩

end Cli

end DocPath
