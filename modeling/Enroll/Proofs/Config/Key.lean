import Enroll.Proofs.Config.Job

/-!
# The key of a job

Two settings that differ in the key alone load the same job but for the key, and show the same while
they do: the key is asked for whether it is there, and not for what it is.
-/

namespace Enroll

/-- Two environments that differ in the key they give outright. -/
structure Rekeyed (k k' : Text) (env env' : Members) : Prop where
  had : Members.get? env "KEYREG_KEY" = some (.string k)
  has : Members.get? env' "KEYREG_KEY" = some (.string k')
  hadSome : k ≠ []
  hasSome : k' ≠ []
  others : ∀ name : Text, name ≠ "KEYREG_KEY" → Members.get? env' name = Members.get? env name

/-- Two trees that differ in files from which either way a key can be taken. -/
def Rewritten (files files' : Files) : Prop :=
  ∀ path, files' path = files path ∨ ∃ bytes bytes',
    files path = .ok (.file bytes) ∧ files' path = .ok (.file bytes') ∧
      (Utf8.decode bytes).trim ≠ [] ∧ (Utf8.decode bytes').trim ≠ []

/-- Two environments with their files that differ in the key alone. -/
inductive DifferInKey : Json → Files → Json → Files → Prop where
  | given {k k' : Text} {env env' : Members} (files : Files) (hGiven : Rekeyed k k' env env') :
    DifferInKey (.object env) files (.object env') files
  | held (env : Json) {files files' : Files} (hHeld : Rewritten files files') :
    DifferInKey env files env files'

/-! ## The variables -/

namespace Rekeyed

open Variables

variable {k k' : Text} {env env' : Members}

theorem issues (h : Rekeyed k k' env env') (v : Variables) :
    Variables.issues env' { v with key := some k' } = Variables.issues env v := by
  have hFaults : textIssues env' "KEYREG_KEY" = textIssues env "KEYREG_KEY" := by
    simp [textIssues, h.had, h.has, textFaults, h.hadSome, h.hasSome]
  have hOthers : ∀ name : String, Text.ofString name ≠ "KEYREG_KEY" →
      textIssues env' name = textIssues env name := by
    intro name hName
    rw [textIssues, textIssues, h.others name hName]
  simp only [Variables.issues, hFaults, hOthers "KEYREG_USER" (by decide),
    hOthers "USER" (by decide), hOthers "KEYREG_KEY_FILE" (by decide),
    hOthers "KEYREG_HOST" (by decide)]

theorem ofMembers [Nesting] (h : Rekeyed k k' env env') :
    Variables.ofMembers env' =
      (Variables.ofMembers env).map fun v => { v with key := some k' } := by
  simp only [Variables.ofMembers, h.has, h.others "KEYREG_PORT" (by decide),
    h.others "KEYREG_USER" (by decide), h.others "USER" (by decide),
    h.others "KEYREG_KEY_FILE" (by decide), h.others "KEYREG_HOST" (by decide),
    h.others "KEYREG_TIMEOUT_MS" (by decide)]
  cases number (Members.get? env "KEYREG_PORT") with
  | error f => rfl
  | ok port => cases number? (Members.get? env "KEYREG_TIMEOUT_MS") <;> rfl

end Rekeyed

theorem Variables.key_of_ofMembers [Nesting] {env : Members} {v : Variables}
    (h : Variables.ofMembers env = .ok v) : v.key = text? (Members.get? env "KEYREG_KEY") := by
  simp only [Variables.ofMembers] at h
  cases hPort : number (Members.get? env "KEYREG_PORT") with
  | error f => exact absurd (hPort ▸ h) nofun
  | ok port =>
    cases hTimeout : number? (Members.get? env "KEYREG_TIMEOUT_MS") with
    | error f => exact absurd (hTimeout ▸ hPort ▸ h) nofun
    | ok timeout =>
      rw [hPort, hTimeout] at h
      obtain rfl := Except.ok.inj h
      rfl

/-! ## The job -/

namespace Job

open Act

inductive SameButKey : Job → Job → Prop where
  | mk (port : Number) (name k k' host : Text) (timeout : Number) :
    SameButKey ⟨port, ⟨name, k⟩, host, timeout⟩ ⟨port, ⟨name, k'⟩, host, timeout⟩

theorem agree_check [Nesting] {k k' : Text} {env env' : Members} (h : Rekeyed k k' env env') :
    Agree (fun v v' => v.key = some k ∧ v' = { v with key := some k' })
      (ofExcept (Variables.check (.object env))) (ofExcept (Variables.check (.object env'))) := by
  rw [check_object, check_object, h.ofMembers]
  cases hRead : Variables.ofMembers env with
  | error f => exact .error [] f
  | ok v =>
    have hKey : v.key = some k := by
      rw [Variables.key_of_ofMembers hRead, h.had]
      rfl
    simp only [Except.map, Except.bind, h.issues]
    split
    · exact .ok [] ⟨hKey, rfl⟩
    · exact .error [] _

theorem agree_keyOfFile [Nesting] {files files' : Files} {path : Text} {bytes bytes' : List UInt8}
    (hFile : files path = .ok (.file bytes)) (hFile' : files' path = .ok (.file bytes'))
    (log : Logger) :
    Agree (fun k k' => k = (Utf8.decode bytes).trim ∧ k' = (Utf8.decode bytes').trim)
      (keyOfFile files log path) (keyOfFile files' log path) := by
  unfold keyOfFile
  rw [hFile, hFile']
  exact (Agree.of_eq (R := fun _ _ => True) _ fun _ _ => trivial).bind fun _ _ _ =>
    .ok [] ⟨rfl, rfl⟩

theorem agree_key [Nesting] {files files' : Files} (h : Rewritten files files') (v : Variables)
    (log : Logger) : Agree (fun _ _ => True) (key v files log) (key v files' log) := by
  unfold key
  split
  · exact .ok [] trivial
  · rename_i path _ _
    rcases h path with hSame | ⟨bytes, bytes', hFile, hFile', hSome, hSome'⟩
    · rw [keyOfFile, keyOfFile, hSame]
      exact .of_eq _ fun _ _ => trivial
    · refine (agree_keyOfFile hFile hFile' log).bind ?_
      rintro k k' ⟨rfl, rfl⟩
      rw [if_neg hSome, if_neg hSome']
      exact .ok [] trivial
  · exact .error [] _

theorem agree_load [Nesting] {env env' : Json} {files files' : Files}
    (h : DifferInKey env files env' files') (log : Logger) :
    Agree SameButKey (load env files log) (load env' files' log) := by
  have hUser : ∀ v, Agree Eq (user v) (user v) := fun v => .of_eq _ fun _ _ => rfl
  cases h with
  | given _ hGiven =>
    refine (agree_check hGiven).bind ?_
    rintro v v' ⟨hKey, rfl⟩
    refine (hUser v).bind ?_
    rintro u _ rfl
    rw [key, key, hKey]
    exact .ok [] (.mk _ _ _ _ _ _)
  | held _ hHeld =>
    refine (Agree.of_eq (R := Eq) (ofExcept (Variables.check env)) fun _ _ => rfl).bind ?_
    rintro v _ rfl
    refine (hUser v).bind ?_
    rintro u _ rfl
    exact (agree_key hHeld v log).bind fun k k' _ => .ok [] (.mk _ _ _ _ _ _)

end Job

end Enroll
