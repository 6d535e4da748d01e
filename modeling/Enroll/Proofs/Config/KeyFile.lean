import Enroll.Proofs.Config.Fallback
import Enroll.Proofs.Text.Blank
import Enroll.Proofs.Text.Utf8

/-!
# A key in a file

A file that holds a key among blanks stands for the key itself: the job is the same, and so is what
keeps it from being loaded. Only that an entry of the log tells of the file before it is read.
-/

namespace Enroll

/-- The bytes are those of a key that neither starts nor ends with a blank, with blanks around it. -/
inductive HoldsKey : List UInt8 → Text → Prop where
  | mk {before k after : Text} (hNonempty : k ≠ []) (hPaired : k.Paired) (hTrimmed : k.Trimmed)
    (hBefore : ∀ u ∈ before, Text.isBlank u) (hAfter : ∀ u ∈ after, Text.isBlank u) :
    HoldsKey (Utf8.encode (before ++ k ++ after)) k

theorem HoldsKey.ne_nil {bytes : List UInt8} {k : Text} (h : HoldsKey bytes k) : k ≠ [] := by
  obtain ⟨hNonempty, -⟩ := h
  exact hNonempty

theorem HoldsKey.trim_decode {bytes : List UInt8} {k : Text} (h : HoldsKey bytes k) :
    (Utf8.decode bytes).trim = k := by
  obtain ⟨hNonempty, hPaired, hTrimmed, hBefore, hAfter⟩ := h
  have hAll := ((Text.paired_of_blanks hBefore).append hPaired).append (Text.paired_of_blanks hAfter)
  rw [Utf8.decode_encode hAll]
  exact Text.trim_blanks hNonempty hTrimmed hBefore hAfter

/-- An environment that has a key, and one that is the same but for having the key in a file. A path
is never empty. -/
structure KeyInFile (env : Environment) (files : Files) (env' : Environment) (path k : Text) :
    Prop where
  given : env.value? "KEYREG_KEY" = some k
  unused : env.value? "KEYREG_KEY_FILE" ≠ some []
  unset : env'.value? "KEYREG_KEY" = none
  named : env'.value? "KEYREG_KEY_FILE" = some path
  path_ne_nil : path ≠ []
  others : ∀ name : Text, name ≠ "KEYREG_KEY" → name ≠ "KEYREG_KEY_FILE" →
    env'.value? name = env.value? name
  held : ∃ bytes, files path = .ok (.file bytes) ∧ HoldsKey bytes k

namespace Environment

/-- An issue of one environment is one of any other that has the same numbers and whose texts are
empty where those of the first are. -/
theorem Breaks.of_empty {env env' : Environment} {i : Issue} (h : env.Breaks i)
    (hPort : env'.value? "KEYREG_PORT" = env.value? "KEYREG_PORT")
    (hTimeout : env'.value? "KEYREG_TIMEOUT_MS" = env.value? "KEYREG_TIMEOUT_MS")
    (hEmpty : ∀ name : Text, env.value? name = some [] → env'.value? name = some []) :
    env'.Breaks i := by
  cases h with
  | unset hUnset => exact .unset (hPort.trans hUnset)
  | port hSet hViolates => exact .port (hPort.trans hSet) hViolates
  | timeout hSet hViolates => exact .timeout (hTimeout.trans hSet) hViolates
  | empty hText hNone => exact .empty hText (hEmpty _ hNone)

end Environment

namespace KeyInFile

open Environment

variable {env env' : Environment} {files : Files} {path k : Text}

/-- An environment with neither can be given either. -/
theorem of_neither {base : Environment} (hKey : base.value? "KEYREG_KEY" = none)
    (hFile : base.value? "KEYREG_KEY_FILE" = none) (hPath : path ≠ [])
    (hHeld : ∃ bytes, files path = .ok (.file bytes) ∧ HoldsKey bytes k) :
    KeyInFile (("KEYREG_KEY", k) :: base) files (("KEYREG_KEY_FILE", path) :: base) path k where
  given := rfl
  unused := by
    rw [Job.value?_cons_of_ne (by decide), hFile]
    simp
  unset := by rw [Job.value?_cons_of_ne (by decide), hKey]
  named := rfl
  path_ne_nil := hPath
  others name hNotKey hNotFile := by
    rw [Job.value?_cons_of_ne hNotFile.symm, Job.value?_cons_of_ne hNotKey.symm]
  held := hHeld

theorem empty_iff (h : KeyInFile env files env' path k) (name : Text) :
    env'.value? name = some [] ↔ env.value? name = some [] := by
  obtain ⟨bytes, -, hHolds⟩ := h.held
  by_cases hKey : name = "KEYREG_KEY"
  · subst hKey
    rw [h.unset, h.given, Option.some_inj]
    exact ⟨fun hNone => absurd hNone (by simp), fun hNil => absurd hNil hHolds.ne_nil⟩
  · by_cases hFile : name = "KEYREG_KEY_FILE"
    · subst hFile
      rw [h.named, Option.some_inj]
      exact ⟨fun hNil => absurd hNil h.path_ne_nil, fun hNil => absurd hNil h.unused⟩
    · rw [h.others name hKey hFile]

theorem port (h : KeyInFile env files env' path k) :
    env'.value? "KEYREG_PORT" = env.value? "KEYREG_PORT" := h.others _ (by decide) (by decide)

theorem timeout (h : KeyInFile env files env' path k) :
    env'.value? "KEYREG_TIMEOUT_MS" = env.value? "KEYREG_TIMEOUT_MS" :=
  h.others _ (by decide) (by decide)

theorem host (h : KeyInFile env files env' path k) :
    env'.value? "KEYREG_HOST" = env.value? "KEYREG_HOST" := h.others _ (by decide) (by decide)

theorem user?_eq (h : KeyInFile env files env' path k) : env'.user? = env.user? := by
  rw [user?, user?, h.others "KEYREG_USER" (by decide) (by decide),
    h.others "USER" (by decide) (by decide)]

theorem breaks_iff (h : KeyInFile env files env' path k) (i : Issue) :
    env'.Breaks i ↔ env.Breaks i :=
  ⟨fun hBreaks => hBreaks.of_empty h.port.symm h.timeout.symm fun name => (h.empty_iff name).mp,
    fun hBreaks => hBreaks.of_empty h.port h.timeout fun name => (h.empty_iff name).mpr⟩

theorem reports (h : KeyInFile env files env' path k) {told : List Issue} (hTold : env.Reports told) :
    env'.Reports told := hTold.congr fun i => (h.breaks_iff i).symm

end KeyInFile

namespace Job

open Environment

/-- The entry of the log about a key file, as it is made. -/
def reading [Nesting] (log : Logger) (path : Text) : Act Unit :=
  log.write .info (.object (readingEntry path).context) (readingEntry path).message

/-- What becomes of a job, or of what keeps it from being loaded, if the entry is made first. No
entry is made where there is no job; and one that fails is the end of it. -/
def toldFirst (entry : Act Unit) : Except Failure Job → Act Job
  | .error f => .fail f
  | .ok job => ⟨entry.effects, entry.result.map fun _ => job⟩

variable {env env' : Environment} {files : Files} {path k : Text}

theorem key_of_held [Nesting] (h : KeyInFile env files env' path k) (log : Logger) :
    key env'.read files log = ⟨(reading log path).effects, (reading log path).result.map fun _ => k⟩ := by
  obtain ⟨bytes, hFile, hHolds⟩ := h.held
  have hOfFile : keyOfFile files log path =
      ⟨(reading log path).effects, (reading log path).result.map fun _ => k⟩ := by
    rw [keyOfFile, hFile]
    simp only [hHolds.trim_decode]
    exact Act.map_eq (reading log path) fun _ => k
  rw [key_of_path h.unset h.named, hOfFile]
  cases hEntry : (reading log path).result with
  | error f => exact Act.bind_of_error rfl _
  | ok a =>
    refine (Act.bind_of_ok rfl _).trans ?_
    rw [if_neg hHolds.ne_nil]
    exact congrArg (Act.mk · _) (List.append_nil _)

/-- A key that is given makes a job, or none, whatever the logger and without a word. -/
theorem load_of_key_in_file [Nesting] (h : KeyInFile env files env' path k) :
    ∃ loaded : Except Failure Job, (∀ job, loaded = .ok job → job.registration.key = k) ∧
      ∀ log : Logger, load (.object env.members) files log = ⟨[], loaded⟩ ∧
        load (.object env'.members) files log = toldFirst (reading log path) loaded := by
  obtain ⟨entries, result, hDecides⟩ := decides_total env files
  cases hDecides with
  | invalid hIssues hSome =>
    refine ⟨.error _, by simp, fun log => ⟨load_of_invalid hIssues hSome files log, ?_⟩⟩
    exact load_of_invalid (h.reports hIssues) hSome files log
  | nobody hValid hNobody =>
    refine ⟨.error _, by simp, fun log => ⟨load_of_nobody hValid hNobody files log, ?_⟩⟩
    exact load_of_nobody (h.reports hValid) (h.user?_eq.trans hNobody) files log
  | @keyed port u entries key hValid hPort hUser hKeys =>
    refine ⟨.ok ⟨.ofText port, ⟨u, k⟩, (env.value? "KEYREG_HOST").getD "localhost",
      ((env.value? "KEYREG_TIMEOUT_MS").map Number.ofText).getD 10000⟩, ?_, fun log => ⟨?_, ?_⟩⟩
    · rintro job hJob
      obtain rfl := Except.ok.inj hJob
      rfl
    · rw [load_of_valid hValid hPort hUser, key_of_given h.given]
      rfl
    · rw [load_of_valid (h.reports hValid) (h.port.trans hPort) (h.user?_eq.trans hUser),
        key_of_held h, toldFirst, h.host, h.timeout]
      cases (reading log path).result <;> rfl

end Job

end Enroll
