import Enroll.Proofs.Config.Decision

/-!
# How a failure to load is told

What keeps a job from being loaded is told as an error of the configuration, in its own words. A
directory in the place of the key file is not: it is there, so it is read, and the error of the
reading is what comes out.
-/

namespace Enroll

namespace Failure

/-- The kind of an error. The error of a transport is of its own kind. -/
def kind? : Failure → Option ErrorKind
  | .invalidPort _ _ | .invalidEnvironment _ | .userMissing | .keyFileMissing _ | .keyMissing
  | .directoryRead => some .plain
  | .nestedTooDeep => some .range
  | .error kind _ _ _ => some kind
  | .transport _ _ _ _ _ | .value _ => none

/-- A plain error in the words of the configuration, and not one from underneath, which has a code
or a cause. -/
structure Reported (f : Failure) : Prop where
  plain : f.kind? = some .plain
  codeless : f.codeText? = none
  causeless : f.cause? = none
  prefixed : Text.ofString "keyreg-client:config - " <+: f.message

theorem reported_of_message {f : Failure} {what : Text} (hPlain : f.kind? = some .plain)
    (hCode : f.codeText? = none) (hCause : f.cause? = none) (hMessage : f.message = configMessage what) :
    f.Reported :=
  ⟨hPlain, hCode, hCause, what, hMessage.symm⟩

theorem not_reported_directoryRead : ¬directoryRead.Reported := fun h =>
  absurd h.codeless (by simp [codeText?])

end Failure

namespace Environment

variable {env : Environment} {files : Files} {entries : List LogEntry} {f : Failure}

theorem Keys.reported (h : env.Keys files entries (.error f)) (hOther : f ≠ .directoryRead) :
    f.Reported := by
  cases h with
  | unset | absent | blank => exact Failure.reported_of_message rfl rfl rfl rfl
  | directory => exact absurd rfl hOther

theorem Keys.directory_of_read (h : env.Keys files entries (.error .directoryRead)) :
    env.value? "KEYREG_KEY" = none ∧
      ∃ path, env.value? "KEYREG_KEY_FILE" = some path ∧ files path = .ok .directory := by
  cases h with
  | directory hKey hPath hFile => exact ⟨hKey, _, hPath, hFile⟩

theorem Decides.reported (h : env.Decides files entries (.error f)) (hOther : f ≠ .directoryRead) :
    f.Reported := by
  generalize hResult : (Except.error f : Except Failure Job) = result at h
  cases h with
  | invalid | nobody =>
    obtain rfl := Except.error.inj hResult
    exact Failure.reported_of_message rfl rfl rfl rfl
  | @keyed _ _ _ key _ _ _ hKeys =>
    cases key with
    | ok k => exact absurd hResult (by simp [Except.map])
    | error g =>
      obtain rfl := Except.error.inj hResult
      exact hKeys.reported hOther

theorem Decides.directory_of_read (h : env.Decides files entries (.error .directoryRead)) :
    ∃ path, env.LooksAt path ∧ files path = .ok .directory := by
  generalize hResult : (Except.error .directoryRead : Except Failure Job) = result at h
  cases h with
  | invalid | nobody => exact absurd hResult (by simp)
  | @keyed _ _ _ key hValid _ hUser hKeys =>
    cases key with
    | ok k => exact absurd hResult (by simp [Except.map])
    | error g =>
      obtain rfl := Except.error.inj hResult
      obtain ⟨hKey, path, hPath, hFile⟩ := hKeys.directory_of_read
      exact ⟨path, ⟨hValid, hUser, hKey, hPath⟩, hFile⟩

/-- A directory that is looked at for the key is read. -/
theorem LooksAt.decides {path : Text} (h : env.LooksAt path) (hFile : files path = .ok .directory) :
    env.Decides files [Job.readingEntry path] (.error .directoryRead) := by
  obtain ⟨hValid, hUser, hKey, hPath⟩ := h
  obtain ⟨port, hPort⟩ := Job.port_set_of_valid hValid
  exact .keyed hValid hPort hUser (.directory hKey hPath hFile)

end Environment

namespace Job

/-- A job that is not loaded is told as an error of the configuration, unless it is a directory that
is looked at for the key: then the error is the one of reading it. -/
theorem load_failure_reported [Nesting] (env : Environment) (files : Files) {log : Logger}
    (hLog : log.NeverFails) {f : Failure}
    (hFails : (load (.object env.members) files log).result = .error f) :
    (f.Reported ↔ ¬∃ path, env.LooksAt path ∧ files path = .ok .directory) ∧
      (¬f.Reported → f = .directoryRead) := by
  obtain ⟨entries, result, hDecides⟩ := decides_total env files
  have hLoad := load_of_decides hLog hDecides
  obtain rfl : result = .error f := by rw [← hFails, hLoad]
  have hOnly : ¬f.Reported → f = .directoryRead := fun hNot =>
    by_contra fun hOther => hNot (hDecides.reported hOther)
  refine ⟨⟨?_, fun hNone => ?_⟩, hOnly⟩
  · rintro hReported ⟨path, hLooks, hFile⟩
    rw [load_of_decides hLog (hLooks.decides hFile)] at hFails
    obtain rfl := Except.error.inj hFails
    exact Failure.not_reported_directoryRead hReported
  · by_contra hNot
    obtain rfl := hOnly hNot
    exact hNone hDecides.directory_of_read

/-- A key file that is not there. -/
theorem load_failure_reported_missing_file :
    let env : Environment :=
      [("KEYREG_PORT", "4000"), ("USER", "bob"), ("KEYREG_KEY_FILE", "id.pub")]
    let files : Files := fun _ => .error .missing
    (load (.object env.members) files .console).result = .error (.keyFileMissing "id.pub") ∧
      (Failure.keyFileMissing "id.pub").Reported := by
  intro env files
  have hLog : Logger.console.NeverFails := trivial
  have hFails : (load (.object env.members) files .console).result =
      .error (.keyFileMissing "id.pub") := rfl
  refine ⟨hFails, (load_failure_reported env files hLog hFails).1.mpr ?_⟩
  rintro ⟨path, -, hFile⟩
  exact absurd hFile (by simp [files])

/-- The key file is a directory of the working directory. -/
theorem directory_read_unreported :
    let env : Environment :=
      [("KEYREG_PORT", "4000"), ("KEYREG_USER", "alice"), ("KEYREG_KEY_FILE", "id.pub")]
    let tree : FileTree := FileTree.add ⟨["home"], []⟩ "id.pub" .directory
    Logger.console.NeverFails ∧
      (load (.object env.members) tree.files .console).result = .error .directoryRead ∧
      ¬Text.ofString "keyreg-client:config - " <+: Failure.directoryRead.message ∧
      ¬Failure.directoryRead.Reported := by
  intro env tree
  exact ⟨trivial, rfl, by decide, Failure.not_reported_directoryRead⟩

end Job

end Enroll
