import Enroll.Config.Job
import Enroll.Proofs.Act
import Enroll.Proofs.Logging

/-!
# Loading a job

Whether it comes to a job or not, loading one shows nothing but entries of the log. The port of a
job is one that a service can have.
-/

namespace Enroll.Job

open Act

/-- The entry of the log before a key file is read. -/
def readingEntry (path : Text) : LogEntry :=
  ⟨.info, [("keyPath", .string path)], "keyreg-client:config - Reading key from file",
    by simp [Json.isScalar]⟩

theorem says_keyOfFile [Nesting] (files : Files) (log : Logger) (path : Text) :
    (keyOfFile files log path).Shows log.Says := by
  unfold keyOfFile
  cases files path with
  | error absence => exact shows_fail _
  | ok node =>
    have hWrite : (log.write .info (.object (readingEntry path).context)
        (readingEntry path).message).Shows log.Says := fun _ hEffect => ⟨readingEntry path, hEffect⟩
    apply hWrite.bind
    intro _
    cases node with
    | directory => exact shows_fail _
    | file bytes => exact shows_pure _

theorem says_key [Nesting] (v : Variables) (files : Files) (log : Logger) :
    (key v files log).Shows log.Says := by
  unfold key
  split
  · exact shows_pure _
  · apply (says_keyOfFile files log _).bind
    intro k
    split
    · exact shows_fail _
    · exact shows_pure _
  · exact shows_fail _

theorem says_load [Nesting] (env : Json) (files : Files) (log : Logger) :
    (load env files log).Shows log.Says := by
  have hCheck : (ofExcept (Variables.check env)).Shows log.Says := by
    intro e he
    exact absurd he List.not_mem_nil
  apply hCheck.bind
  intro v
  have hUser : (user v).Shows log.Says := by
    unfold user
    split
    · exact shows_pure _
    · exact shows_fail _
  apply hUser.bind
  intro u
  apply (says_key v files log).bind
  intro k
  exact shows_pure _

theorem check_object [Nesting] (env : Members) : Variables.check (.object env) =
    (Variables.ofMembers env).bind fun v =>
      if (Variables.issues env v).isEmpty then .ok v
      else .error (.invalidEnvironment (Variables.issues env v)) := rfl

/-- The two ranges of a port are one. -/
theorem portSettingRange_eq : Variables.portSettingRange = portRange := rfl

/-- What is checked has a port that a service can have. -/
theorem validPort_of_check [Nesting] {env : Json} {v : Variables}
    (h : Variables.check env = .ok v) :
    validPort v.port := by
  cases env with
  | object members =>
    rw [check_object] at h
    cases hRead : Variables.ofMembers members with
    | error f => simp [hRead, Except.bind] at h
    | ok read =>
      simp only [hRead, Except.bind] at h
      split at h
      · rename_i hNone
        obtain rfl : read = v := by simpa using h
        have hPort : Variables.issuesOf "KEYREG_PORT"
            (Variables.portSettingRange.faults read.port) = [] := by
          simp only [Variables.issues, List.isEmpty_iff, List.append_eq_nil_iff] at hNone
          exact hNone.1.1.1.1.1.1
        rw [validPort, List.isEmpty_iff, ← portSettingRange_eq]
        exact List.map_eq_nil_iff.mp hPort
      · simp at h
  | _ => simp [Variables.check] at h

theorem validPort_of_load [Nesting] {env : Json} {files : Files} {log : Logger} {job : Job}
    (h : (load env files log).result = .ok job) : validPort job.port := by
  obtain ⟨v, hCheck, h⟩ := result_bind_eq_ok.mp h
  obtain ⟨u, -, h⟩ := result_bind_eq_ok.mp h
  obtain ⟨k, -, h⟩ := result_bind_eq_ok.mp h
  obtain rfl := Except.ok.inj h
  exact validPort_of_check hCheck

end Enroll.Job
