import Enroll.Config.Environment
import Enroll.Proofs.Check
import Enroll.Proofs.Config.Job
import Enroll.Proofs.Failure

/-!
# What decides a job

What comes of loading a job from an environment of texts is read off the environment and the files.
The variables come first, all of them; then the user; then the key, and the file that it may be in.
`Decides` has one case for each way that goes, and `Breaks` one for each way a variable can be wrong.
-/

namespace Enroll

namespace Environment

/-- The issues that an environment can have, in the order in which they are told. -/
def schema : List Issue :=
  [⟨"KEYREG_PORT", .kind "number" "nan"⟩, ⟨"KEYREG_PORT", .fraction⟩, ⟨"KEYREG_PORT", .below 1⟩,
    ⟨"KEYREG_PORT", .above 65535⟩, ⟨"KEYREG_USER", .emptyText⟩, ⟨"USER", .emptyText⟩,
    ⟨"KEYREG_KEY", .emptyText⟩, ⟨"KEYREG_KEY_FILE", .emptyText⟩, ⟨"KEYREG_HOST", .emptyText⟩,
    ⟨"KEYREG_TIMEOUT_MS", .kind "number" "nan"⟩, ⟨"KEYREG_TIMEOUT_MS", .fraction⟩,
    ⟨"KEYREG_TIMEOUT_MS", .notAbove 0⟩, ⟨"KEYREG_TIMEOUT_MS", .above 2147483647⟩]

/-- The variables that are texts. -/
def texts : List Text := ["KEYREG_USER", "USER", "KEYREG_KEY", "KEYREG_KEY_FILE", "KEYREG_HOST"]

/-- An issue that an environment has. Only the port has to be set. -/
inductive Breaks (env : Environment) : Issue → Prop where
  | unset (hUnset : env.value? "KEYREG_PORT" = none) :
    Breaks env ⟨"KEYREG_PORT", .kind "number" "nan"⟩
  | port {t : Text} {f : Fault} (hSet : env.value? "KEYREG_PORT" = some t)
      (hViolates : Range.Violates ⟨.least 1, 65535⟩ (.ofText t) f) : Breaks env ⟨"KEYREG_PORT", f⟩
  | empty {name : Text} (hText : name ∈ texts) (hEmpty : env.value? name = some []) :
    Breaks env ⟨name, .emptyText⟩
  | timeout {t : Text} {f : Fault} (hSet : env.value? "KEYREG_TIMEOUT_MS" = some t)
      (hViolates : Range.Violates ⟨.over 0, 2147483647⟩ (.ofText t) f) :
    Breaks env ⟨"KEYREG_TIMEOUT_MS", f⟩

/-- All issues of an environment. -/
abbrev Reports (env : Environment) (issues : List Issue) : Prop := Tells schema env.Breaks issues

/-- Who is to be registered: a user of its own for this comes before the one of the system. -/
def user? (env : Environment) : Option Text := (env.value? "KEYREG_USER").or (env.value? "USER")

/-- The file that is looked at for the key. -/
inductive LooksAt (env : Environment) : Text → Prop where
  | mk {path u : Text} (hValid : env.Reports []) (hUser : env.user? = some u)
      (hKey : env.value? "KEYREG_KEY" = none) (hPath : env.value? "KEYREG_KEY_FILE" = some path) :
    LooksAt env path

/-- Where the key comes from, what is logged of that, and which key it is. -/
inductive Keys (env : Environment) (files : Files) : List LogEntry → Except Failure Text → Prop where
  | given {k : Text} (hKey : env.value? "KEYREG_KEY" = some k) : Keys env files [] (.ok k)
  | unset (hKey : env.value? "KEYREG_KEY" = none) (hPath : env.value? "KEYREG_KEY_FILE" = none) :
    Keys env files [] (.error .keyMissing)
  | absent {path : Text} {absence : Absence} (hKey : env.value? "KEYREG_KEY" = none)
      (hPath : env.value? "KEYREG_KEY_FILE" = some path) (hFile : files path = .error absence) :
    Keys env files [] (.error (.keyFileMissing path))
  | directory {path : Text} (hKey : env.value? "KEYREG_KEY" = none)
      (hPath : env.value? "KEYREG_KEY_FILE" = some path) (hFile : files path = .ok .directory) :
    Keys env files [Job.readingEntry path] (.error .directoryRead)
  | blank {path : Text} {bytes : List UInt8} (hKey : env.value? "KEYREG_KEY" = none)
      (hPath : env.value? "KEYREG_KEY_FILE" = some path) (hFile : files path = .ok (.file bytes))
      (hBlank : (Utf8.decode bytes).trim = []) :
    Keys env files [Job.readingEntry path] (.error .keyMissing)
  | held {path : Text} {bytes : List UInt8} (hKey : env.value? "KEYREG_KEY" = none)
      (hPath : env.value? "KEYREG_KEY_FILE" = some path) (hFile : files path = .ok (.file bytes))
      (hSome : (Utf8.decode bytes).trim ≠ []) :
    Keys env files [Job.readingEntry path] (.ok (Utf8.decode bytes).trim)

/-- What loading a job logs, and what it comes to. -/
inductive Decides (env : Environment) (files : Files) :
    List LogEntry → Except Failure Job → Prop where
  | invalid {issues : List Issue} (hIssues : env.Reports issues) (hSome : issues ≠ []) :
    Decides env files [] (.error (.invalidEnvironment issues))
  | nobody (hValid : env.Reports []) (hUser : env.user? = none) :
    Decides env files [] (.error .userMissing)
  | keyed {port u : Text} {entries : List LogEntry} {key : Except Failure Text}
      (hValid : env.Reports []) (hPort : env.value? "KEYREG_PORT" = some port)
      (hUser : env.user? = some u) (hKeys : env.Keys files entries key) :
    Decides env files entries (key.map fun k =>
      ⟨.ofText port, ⟨u, k⟩, (env.value? "KEYREG_HOST").getD "localhost",
        ((env.value? "KEYREG_TIMEOUT_MS").map Number.ofText).getD 10000⟩)

/-! ## What the variables read as -/

/-- What the variables of an environment read as. -/
def read (env : Environment) : Variables :=
  ⟨((env.value? "KEYREG_PORT").map Number.ofText).getD .nan, env.value? "KEYREG_USER",
    env.value? "USER", env.value? "KEYREG_KEY", env.value? "KEYREG_KEY_FILE",
    env.value? "KEYREG_HOST", (env.value? "KEYREG_TIMEOUT_MS").map Number.ofText⟩

open Variables

theorem text?_members (env : Environment) (name : Text) :
    text? (Members.get? env.members name) = env.value? name := by
  rw [get?_members]
  cases env.value? name <;> rfl

theorem number_members [Nesting] (env : Environment) (name : Text) :
    number (Members.get? env.members name) =
      .ok (((env.value? name).map Number.ofText).getD .nan) := by
  rw [get?_members]
  cases env.value? name <;> rfl

theorem number?_members [Nesting] (env : Environment) (name : Text) :
    number? (Members.get? env.members name) = .ok ((env.value? name).map Number.ofText) := by
  rw [get?_members]
  cases env.value? name <;> rfl

theorem ofMembers_members [Nesting] (env : Environment) : ofMembers env.members = .ok env.read := by
  simp only [ofMembers, number_members, number?_members, text?_members]
  rfl

theorem nodup_schema : schema.Nodup := by decide

/-! ## What is wrong with them -/

theorem textIssues_members (env : Environment) (name : String) :
    textIssues env.members name =
      if env.value? name = some [] then [⟨name, .emptyText⟩] else [] := by
  rw [textIssues, get?_members]
  cases env.value? name with
  | none => rfl
  | some t => cases t <;> rfl

/-- The texts are checked one after another, between the two numbers. -/
theorem issues_members (env : Environment) :
    issues env.members env.read =
      (portSettingRange.faults env.read.port).map (Issue.mk "KEYREG_PORT") ++
        (texts.flatMap fun name => if env.value? name = some [] then [⟨name, .emptyText⟩] else []) ++
        (timeoutFaults env.read.timeout).map (Issue.mk "KEYREG_TIMEOUT_MS") := by
  simp only [issues, textIssues_members, issuesOf, texts, List.flatMap_cons, List.flatMap_nil,
    List.append_assoc, List.append_nil]

theorem tells_timeoutFaults (timeout : Option Number) :
    Tells timeoutRange.rules (fun f => ∃ x, timeout = some x ∧ timeoutRange.Violates x f)
      (timeoutFaults timeout) := by
  cases timeout with
  | none => exact ⟨List.nil_sublist _, fun f => by simp [timeoutFaults]⟩
  | some x => exact (timeoutRange.tells_faults x).congr fun f => by simp

theorem breaks_of_port {env : Environment} {f : Fault}
    (h : portSettingRange.Violates env.read.port f) : env.Breaks ⟨"KEYREG_PORT", f⟩ := by
  cases hSet : env.value? "KEYREG_PORT" with
  | some t =>
    rw [read, hSet] at h
    exact .port hSet h
  | none =>
    rw [read, hSet] at h
    cases h with
    | notNumber => exact .unset hSet
    | fraction hPlace | lower hPlace | above hPlace => exact absurd hPlace nofun

theorem breaks_of_timeout {env : Environment} {x : Number} {f : Fault}
    (hTimeout : env.read.timeout = some x) (h : timeoutRange.Violates x f) :
    env.Breaks ⟨"KEYREG_TIMEOUT_MS", f⟩ := by
  obtain ⟨t, hSet, rfl⟩ := Option.map_eq_some_iff.mp hTimeout
  exact .timeout hSet h

theorem tells_issues (env : Environment) : env.Reports (issues env.members env.read) := by
  have hPort := (portSettingRange.tells_faults env.read.port).map
    (f := Issue.mk "KEYREG_PORT") fun _ => Iff.rfl
  have hTimeout := (tells_timeoutFaults env.read.timeout).map
    (f := Issue.mk "KEYREG_TIMEOUT_MS") fun _ => Iff.rfl
  have hTexts := Tells.each (Issue.mk · .emptyText) (env.value? · = some []) texts
  rw [issues_members]
  refine ((hPort.append hTexts).append hTimeout).congr fun i => ?_
  constructor
  · rintro ((⟨f, hViolates, rfl⟩ | ⟨name, hText, hEmpty, rfl⟩) | ⟨f, ⟨x, hSet, hViolates⟩, rfl⟩)
    · exact breaks_of_port hViolates
    · exact .empty hText hEmpty
    · exact breaks_of_timeout hSet hViolates
  · rintro (hUnset | ⟨hSet, hViolates⟩ | ⟨hText, hEmpty⟩ | @⟨t, f, hSet, hViolates⟩)
    · refine .inl (.inl ⟨_, .notNumber ?_, rfl⟩)
      rw [read, hUnset]
      rfl
    · refine .inl (.inl ⟨_, ?_, rfl⟩)
      rw [read, hSet]
      exact hViolates
    · exact .inl (.inr ⟨_, hText, hEmpty, rfl⟩)
    · refine .inr ⟨f, ⟨.ofText t, ?_, hViolates⟩, rfl⟩
      rw [read, hSet]
      rfl

theorem issues_of_reports {env : Environment} {told : List Issue} (h : env.Reports told) :
    issues env.members env.read = told := env.tells_issues.unique nodup_schema h

theorem check_of_invalid [Nesting] {env : Environment} {told : List Issue} (h : env.Reports told)
    (hSome : told ≠ []) : check (.object env.members) = .error (.invalidEnvironment told) := by
  rw [Job.check_object, ofMembers_members, Except.bind, issues_of_reports h,
    if_neg (by simpa using hSome)]

theorem check_of_valid [Nesting] {env : Environment} (h : env.Reports []) :
    check (.object env.members) = .ok env.read := by
  rw [Job.check_object, ofMembers_members, Except.bind, issues_of_reports h]
  rfl

end Environment

/-! ## What comes of loading -/

namespace Job

open Environment

variable {env : Environment} {files : Files} {log : Logger}

theorem load_of_invalid [Nesting] {told : List Issue} (h : env.Reports told) (hSome : told ≠ [])
    (files : Files) (log : Logger) :
    load (.object env.members) files log = .fail (.invalidEnvironment told) := by
  rw [load, check_of_invalid h hSome]
  rfl

theorem load_of_nobody [Nesting] (hValid : env.Reports []) (hUser : env.user? = none)
    (files : Files) (log : Logger) : load (.object env.members) files log = .fail .userMissing := by
  have hNone : user env.read = .fail .userMissing := by
    rw [user, show env.read.user.or env.read.fallbackUser = none from hUser]
  rw [load, check_of_valid hValid, Act.ofExcept, Act.bind_of_ok rfl, hNone]
  rfl

/-- An environment with a user has the key alone to find. -/
theorem load_of_valid [Nesting] {port u : Text} (hValid : env.Reports [])
    (hPort : env.value? "KEYREG_PORT" = some port) (hUser : env.user? = some u) (files : Files)
    (log : Logger) :
    load (.object env.members) files log =
      ⟨(key env.read files log).effects, (key env.read files log).result.map fun k =>
        ⟨.ofText port, ⟨u, k⟩, (env.value? "KEYREG_HOST").getD "localhost",
          ((env.value? "KEYREG_TIMEOUT_MS").map Number.ofText).getD 10000⟩⟩ := by
  have hSome : user env.read = pure u := by
    rw [user, show env.read.user.or env.read.fallbackUser = some u from hUser]
  have hRead : env.read.port = .ofText port :=
    congrArg (fun value : Option Text => (value.map Number.ofText).getD .nan) hPort
  rw [load, check_of_valid hValid, Act.ofExcept, Act.bind_of_ok rfl, hSome, Act.bind_of_ok rfl,
    hRead]
  exact Act.map_eq _ _

/-- What reading a key file gives. -/
def textOf : Node → Except Failure Text
  | .directory => .error .directoryRead
  | .file bytes => .ok (Utf8.decode bytes).trim

theorem keyOfFile_of_node [Nesting] (hLog : log.NeverFails) {path : Text} {node : Node}
    (hFile : files path = .ok node) :
    keyOfFile files log path = ⟨log.shows (readingEntry path), textOf node⟩ := by
  have hWrite : (log.write .info (.object (readingEntry path).context)
      (readingEntry path).message).result = .ok () :=
    Logger.result_write hLog .info (readingEntry path).scalars _
  rw [keyOfFile, hFile]
  refine (Act.bind_of_ok hWrite _).trans ?_
  cases node with
  | directory => exact congrArg (Act.mk · _) (List.append_nil _)
  | file bytes => exact congrArg (Act.mk · _) (List.append_nil _)

theorem key_of_given [Nesting] {k : Text} (hKey : env.value? "KEYREG_KEY" = some k) (files : Files)
    (log : Logger) : key env.read files log = pure k := by
  rw [key, show env.read.key = some k from hKey]

theorem key_of_unset [Nesting] (hKey : env.value? "KEYREG_KEY" = none)
    (hPath : env.value? "KEYREG_KEY_FILE" = none) (files : Files) (log : Logger) :
    key env.read files log = .fail .keyMissing := by
  rw [key, show env.read.key = none from hKey, show env.read.keyFile = none from hPath]

theorem key_of_path [Nesting] {path : Text} (hKey : env.value? "KEYREG_KEY" = none)
    (hPath : env.value? "KEYREG_KEY_FILE" = some path) :
    key env.read files log = keyOfFile files log path >>= fun k =>
      if k = [] then .fail .keyMissing else pure k := by
  rw [key, show env.read.key = none from hKey, show env.read.keyFile = some path from hPath]

theorem key_of_keys [Nesting] (hLog : log.NeverFails) {entries : List LogEntry}
    {k : Except Failure Text} (h : env.Keys files entries k) :
    key env.read files log = ⟨entries.flatMap log.shows, k⟩ := by
  cases h with
  | given hKey => exact key_of_given hKey files log
  | unset hKey hPath => exact key_of_unset hKey hPath files log
  | absent hKey hPath hFile =>
    rw [key_of_path hKey hPath, keyOfFile, hFile]
    rfl
  | directory hKey hPath hFile =>
    rw [key_of_path hKey hPath, keyOfFile_of_node hLog hFile, Act.bind_of_error rfl,
      List.flatMap_singleton]
  | blank hKey hPath hFile hBlank =>
    rw [key_of_path hKey hPath, keyOfFile_of_node hLog hFile, Act.bind_of_ok rfl, if_pos hBlank,
      List.flatMap_singleton]
    exact congrArg (Act.mk · _) (List.append_nil _)
  | held hKey hPath hFile hSome =>
    rw [key_of_path hKey hPath, keyOfFile_of_node hLog hFile, Act.bind_of_ok rfl, if_neg hSome,
      List.flatMap_singleton]
    exact congrArg (Act.mk · _) (List.append_nil _)

/-- There is always one way in which the key comes. -/
theorem keys_total (env : Environment) (files : Files) : ∃ entries k, env.Keys files entries k := by
  cases hKey : env.value? "KEYREG_KEY" with
  | some k => exact ⟨_, _, .given hKey⟩
  | none =>
    cases hPath : env.value? "KEYREG_KEY_FILE" with
    | none => exact ⟨_, _, .unset hKey hPath⟩
    | some path =>
      cases hFile : files path with
      | error absence => exact ⟨_, _, .absent hKey hPath hFile⟩
      | ok node =>
        cases node with
        | directory => exact ⟨_, _, .directory hKey hPath hFile⟩
        | file bytes =>
          by_cases hBlank : (Utf8.decode bytes).trim = []
          · exact ⟨_, _, .blank hKey hPath hFile hBlank⟩
          · exact ⟨_, _, .held hKey hPath hFile hBlank⟩

theorem port_set_of_valid (hValid : env.Reports []) : ∃ t, env.value? "KEYREG_PORT" = some t := by
  cases hPort : env.value? "KEYREG_PORT" with
  | none => exact absurd (.unset hPort) (hValid.nil_iff.mp rfl _)
  | some t => exact ⟨t, rfl⟩

theorem decides_total (env : Environment) (files : Files) :
    ∃ entries result, env.Decides files entries result := by
  have hReports := env.tells_issues
  by_cases hValid : Variables.issues env.members env.read = []
  · rw [hValid] at hReports
    obtain ⟨port, hPort⟩ := port_set_of_valid hReports
    cases hUser : env.user? with
    | none => exact ⟨_, _, .nobody hReports hUser⟩
    | some u =>
      obtain ⟨entries, k, hKeys⟩ := keys_total env files
      exact ⟨_, _, .keyed hReports hPort hUser hKeys⟩
  · exact ⟨_, _, .invalid hReports hValid⟩

theorem load_of_decides [Nesting] (hLog : log.NeverFails) {entries : List LogEntry}
    {result : Except Failure Job} (h : env.Decides files entries result) :
    load (.object env.members) files log = ⟨entries.flatMap log.shows, result⟩ := by
  cases h with
  | invalid hIssues hSome => exact load_of_invalid hIssues hSome files log
  | nobody hValid hUser => exact load_of_nobody hValid hUser files log
  | keyed hValid hPort hUser hKeys =>
    rw [load_of_valid hValid hPort hUser, key_of_keys hLog hKeys]

/-- Environments with the same issues that agree on who is registered and where give the same, if
they have the same key where one is looked for. -/
theorem load_congr [Nesting] {env' : Environment} {files' : Files}
    (hReports : ∀ {told}, env.Reports told → env'.Reports told) (hUser : env'.user? = env.user?)
    (hPort : env'.value? "KEYREG_PORT" = env.value? "KEYREG_PORT")
    (hHost : env'.value? "KEYREG_HOST" = env.value? "KEYREG_HOST")
    (hTimeout : env'.value? "KEYREG_TIMEOUT_MS" = env.value? "KEYREG_TIMEOUT_MS")
    (hKey : ∀ {u}, env.Reports [] → env.user? = some u →
      key env'.read files' log = key env.read files log) :
    load (.object env'.members) files' log = load (.object env.members) files log := by
  obtain ⟨entries, result, hDecides⟩ := decides_total env files
  cases hDecides with
  | invalid hIssues hSome =>
    rw [load_of_invalid hIssues hSome, load_of_invalid (hReports hIssues) hSome]
  | nobody hValid hNobody =>
    rw [load_of_nobody hValid hNobody, load_of_nobody (hReports hValid) (hUser.trans hNobody)]
  | keyed hValid hSet hSome hKeys =>
    rw [load_of_valid hValid hSet hSome,
      load_of_valid (hReports hValid) (hPort.trans hSet) (hUser.trans hSome), hKey hValid hSome,
      hHost, hTimeout]

/-- No other file counts than the one that is looked at. -/
theorem load_congr_files [Nesting] {files' : Files}
    (h : ∀ path, env.LooksAt path → files' path = files path) (log : Logger) :
    load (.object env.members) files' log = load (.object env.members) files log := by
  refine load_congr id rfl rfl rfl rfl fun hValid hUser => ?_
  cases hKey : env.value? "KEYREG_KEY" with
  | some k => rw [key_of_given hKey, key_of_given hKey]
  | none =>
    cases hPath : env.value? "KEYREG_KEY_FILE" with
    | none => rw [key_of_unset hKey hPath, key_of_unset hKey hPath]
    | some path =>
      have hFile := h path ⟨hValid, hUser, hKey, hPath⟩
      rw [key_of_path hKey hPath, key_of_path hKey hPath, keyOfFile, keyOfFile, hFile]

/-- What loading a job from an environment of texts comes to. One thing is decided, and that is what
is logged and comes of it, a failure in its own words; no file counts but the one that is looked
at. -/
theorem load_decided [Nesting] (env : Environment) (files : Files) {log : Logger}
    (hLog : log.NeverFails) :
    (∃ entries result, env.Decides files entries result) ∧
    (∀ entries result, env.Decides files entries result →
      load (.object env.members) files log = ⟨entries.flatMap log.shows, result⟩ ∧
        ∀ f t, result = .error f → (f.message = t ↔ f.Worded t)) ∧
    ∀ files', (∀ path, env.LooksAt path → files' path = files path) →
      load (.object env.members) files' log = load (.object env.members) files log :=
  ⟨decides_total env files,
    fun _ _ h => ⟨load_of_decides hLog h, fun _ _ _ => Failure.message_eq_iff_worded⟩,
    fun _ h => load_congr_files h log⟩

/-- A port in hexadecimal, the user of the system, and a key in a file. -/
theorem load_decided_of_file :
    let env : Environment :=
      [("KEYREG_PORT", " 0xFA0"), ("USER", "bob"), ("KEYREG_KEY_FILE", "id.pub")]
    let files : Files := fun path =>
      if path = "id.pub" then .ok (.file (Utf8.encode " secret")) else .error .missing
    load (.object env.members) files .console =
      ⟨Logger.console.shows (readingEntry "id.pub"),
        .ok ⟨4000, ⟨"bob", "secret"⟩, "localhost", 10000⟩⟩ := by
  intro env files
  have hValid : env.Reports [] := by
    have hReports := env.tells_issues
    rwa [show Variables.issues env.members env.read = [] by decide +kernel] at hReports
  have hFile : files "id.pub" = .ok (.file (Utf8.encode " secret")) := if_pos rfl
  have hKey : (Utf8.decode (Utf8.encode " secret")).trim = "secret" := by decide +kernel
  have hKeys : env.Keys files [readingEntry "id.pub"] (.ok "secret") :=
    hKey ▸ Keys.held rfl rfl hFile (by rw [hKey]; decide)
  have hDecides := Decides.keyed hValid rfl rfl hKeys
  have hPort : Number.ofText " 0xFA0" = 4000 := by decide +kernel
  rw [hPort] at hDecides
  have hLog : Logger.console.NeverFails := trivial
  exact ((load_decided env files hLog).2.1 _ _ hDecides).1

end Job

end Enroll
