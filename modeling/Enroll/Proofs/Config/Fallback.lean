import Enroll.Proofs.Config.Decision

/-!
# Fallbacks that are not used

The user of the system is not used where another one is set, and the key file not where the key is.
What is not used is checked all the same: it may be anything but empty.
-/

namespace Enroll

open Environment

/-- Two environments that differ in a fallback that neither uses; if that is the key file, the files
may differ too. -/
inductive DifferInUnused (env : Environment) (files : Files) :
    Text → Environment → Files → Prop where
  | user {u : Text} {env' : Environment} (hUser : env.value? "KEYREG_USER" = some u) (hSome : u ≠ [])
      (hOthers : ∀ name : Text, name ≠ "USER" → env'.value? name = env.value? name) :
    DifferInUnused env files "USER" env' files
  | keyFile {k : Text} {env' : Environment} (files' : Files)
      (hKey : env.value? "KEYREG_KEY" = some k) (hSome : k ≠ [])
      (hOthers : ∀ name : Text, name ≠ "KEYREG_KEY_FILE" → env'.value? name = env.value? name) :
    DifferInUnused env files "KEYREG_KEY_FILE" env' files'

/-- An issue of one environment is one of any other that agrees but at one text, unless it is that
this text is empty. -/
theorem Environment.Breaks.of_others {env env' : Environment} {name : Text} {i : Issue}
    (h : env.Breaks i) (hPort : "KEYREG_PORT" ≠ name) (hTimeout : "KEYREG_TIMEOUT_MS" ≠ name)
    (hOthers : ∀ other : Text, other ≠ name → env'.value? other = env.value? other) :
    i = ⟨name, .emptyText⟩ ∧ env.value? name = some [] ∨ env'.Breaks i := by
  cases h with
  | unset hUnset => exact .inr (.unset ((hOthers _ hPort).trans hUnset))
  | port hSet hViolates => exact .inr (.port ((hOthers _ hPort).trans hSet) hViolates)
  | timeout hSet hViolates => exact .inr (.timeout ((hOthers _ hTimeout).trans hSet) hViolates)
  | @empty other hText hEmpty =>
    by_cases hOther : other = name
    · exact .inl ⟨by rw [hOther], hOther ▸ hEmpty⟩
    · exact .inr (.empty hText ((hOthers _ hOther).trans hEmpty))

namespace DifferInUnused

variable {env env' : Environment} {files files' : Files} {name : Text}

theorem others (h : DifferInUnused env files name env' files') {other : Text} (hOther : other ≠ name) :
    env'.value? other = env.value? other := by
  cases h with
  | user _ _ hOthers | keyFile _ _ _ hOthers => exact hOthers other hOther

theorem isText (h : DifferInUnused env files name env' files') :
    name ∈ texts ∧ "KEYREG_PORT" ≠ name ∧ "KEYREG_TIMEOUT_MS" ≠ name ∧ "KEYREG_HOST" ≠ name := by
  cases h with
  | user | keyFile => decide

theorem user?_eq (h : DifferInUnused env files name env' files') : env'.user? = env.user? := by
  cases h with
  | user hUser hSome hOthers =>
    rw [user?, user?, hOthers _ (by decide), hUser]
    rfl
  | keyFile files' hKey hSome hOthers =>
    rw [user?, user?, hOthers _ (by decide), hOthers _ (by decide)]

theorem key_eq [Nesting] (h : DifferInUnused env files name env' files') (log : Logger) :
    Job.key env'.read files' log = Job.key env.read files log := by
  cases h with
  | user hUser hSome hOthers =>
    have hKey : env'.read.key = env.read.key := hOthers "KEYREG_KEY" (by decide)
    have hPath : env'.read.keyFile = env.read.keyFile := hOthers "KEYREG_KEY_FILE" (by decide)
    rw [Job.key, Job.key, hKey, hPath]
  | keyFile files' hKey hSome hOthers =>
    rw [Job.key_of_given hKey, Job.key_of_given ((hOthers "KEYREG_KEY" (by decide)).trans hKey)]

theorem reports_iff (h : DifferInUnused env files name env' files')
    (hEmpty : env'.value? name = some [] ↔ env.value? name = some []) {issues : List Issue} :
    env'.Reports issues ↔ env.Reports issues := by
  obtain ⟨hText, hPort, hTimeout, -⟩ := h.isText
  have hBreaks : ∀ i, env'.Breaks i ↔ env.Breaks i := by
    intro i
    constructor
    · intro hBreaks
      rcases hBreaks.of_others hPort hTimeout fun _ hOther => (h.others hOther).symm with
        ⟨rfl, hName⟩ | hBreaks
      · exact .empty hText (hEmpty.mp hName)
      · exact hBreaks
    · intro hBreaks
      rcases hBreaks.of_others hPort hTimeout fun _ hOther => h.others hOther with
        ⟨rfl, hName⟩ | hBreaks
      · exact .empty hText (hEmpty.mpr hName)
      · exact hBreaks
  exact ⟨fun hReports => hReports.congr hBreaks, fun hReports => hReports.congr fun i => (hBreaks i).symm⟩

/-- Where only the second is empty it has that issue more. -/
theorem breaks_iff (h : DifferInUnused env files name env' files')
    (hFull : env.value? name ≠ some []) (hEmpty : env'.value? name = some []) (i : Issue) :
    env'.Breaks i ↔ env.Breaks i ∨ i = ⟨name, .emptyText⟩ := by
  obtain ⟨hText, hPort, hTimeout, -⟩ := h.isText
  constructor
  · intro hBreaks
    rcases hBreaks.of_others hPort hTimeout fun _ hOther => (h.others hOther).symm with
      ⟨rfl, -⟩ | hBreaks
    · exact .inr rfl
    · exact .inl hBreaks
  · rintro (hBreaks | rfl)
    · rcases hBreaks.of_others hPort hTimeout fun _ hOther => h.others hOther with
        ⟨-, hName⟩ | hBreaks
      · exact absurd hName hFull
      · exact hBreaks
    · exact .empty hText hEmpty

theorem load_eq [Nesting] (h : DifferInUnused env files name env' files')
    (hEmpty : env'.value? name = some [] ↔ env.value? name = some []) (log : Logger) :
    Job.load (.object env'.members) files' log = Job.load (.object env.members) files log := by
  obtain ⟨-, hPort, hTimeout, hHost⟩ := h.isText
  apply Job.load_congr
  · exact (h.reports_iff hEmpty).mpr
  · exact h.user?_eq
  · exact h.others hPort
  · exact h.others hHost
  · exact h.others hTimeout
  · exact fun _ _ => h.key_eq log

end DifferInUnused

namespace Job

/-- A fallback that is not used makes a difference to the loading of a job only by being empty: then
it is told, in its place among what else is wrong. -/
theorem load_differing_in_unused [Nesting] {env env' : Environment} {files files' : Files}
    {name : Text} (h : DifferInUnused env files name env' files') (log : Logger) :
    ((env'.value? name = some [] ↔ env.value? name = some []) →
      load (.object env'.members) files' log = load (.object env.members) files log) ∧
    (env.value? name ≠ some [] → env'.value? name = some [] →
      ∃ issues issues', env.Reports issues ∧ env'.Reports issues' ∧
        (∀ i, i ∈ issues' ↔ i ∈ issues ∨ i = ⟨name, .emptyText⟩) ∧
        load (.object env'.members) files' log = .fail (.invalidEnvironment issues') ∧
        ∃ t, Listed issues' t ∧ (Failure.invalidEnvironment issues').message =
          "keyreg-client:config - Invalid environment: " ++ t) := by
  refine ⟨fun hEmpty => h.load_eq hEmpty log, fun hFull hEmpty => ?_⟩
  have hReports := env.tells_issues
  have hReports' := env'.tells_issues
  refine ⟨_, _, hReports, hReports', fun i => ?_, load_of_invalid hReports' ?_ files' log,
    Failure.lists_issues _⟩
  · rw [hReports'.mem_iff, hReports.mem_iff, h.breaks_iff hFull hEmpty]
  · intro hNone
    exact hReports'.nil_iff.mp hNone _ ((h.breaks_iff hFull hEmpty _).mpr (.inr rfl))

theorem value?_cons_of_ne {set name : Text} (h : set ≠ name) (value : Text) (env : Environment) :
    Environment.value? ((set, value) :: env) name = env.value? name := by
  unfold value?
  rw [List.find?_cons_of_neg (by simpa using h)]

/-- A key beside the name of a file that is there, of one that is not, and of none at all. -/
theorem load_differing_in_unused_key_file :
    let env : Environment := [("KEYREG_PORT", "4000"), ("USER", "bob"), ("KEYREG_KEY", "k")]
    let naming (path : Text) : Environment := ("KEYREG_KEY_FILE", path) :: env
    let absent : Files := fun _ => .error .missing
    let present : Files := fun _ => .ok (.file [0x6B])
    load (.object (naming "id.pub").members) present .console =
        load (.object env.members) absent .console ∧
      ∃ issues, ⟨"KEYREG_KEY_FILE", .emptyText⟩ ∈ issues ∧
        load (.object (naming []).members) present .console = .fail (.invalidEnvironment issues) := by
  intro env naming absent present
  have hDiffer : ∀ path, DifferInUnused env absent "KEYREG_KEY_FILE" (naming path) present :=
    fun path => .keyFile present (k := "k") rfl (by decide) fun name hName =>
      value?_cons_of_ne hName.symm path env
  constructor
  · exact (load_differing_in_unused (hDiffer "id.pub") .console).1 (by decide)
  · obtain ⟨issues, issues', -, -, hIssues, hLoad, -⟩ :=
      (load_differing_in_unused (hDiffer []) .console).2 (by decide) rfl
    exact ⟨issues', (hIssues _).mpr (.inr rfl), hLoad⟩

/-- An empty user of the system fails a job that has another user. -/
theorem empty_unused_user_counts :
    let env : Environment :=
      [("KEYREG_PORT", "4000"), ("KEYREG_USER", "alice"), ("KEYREG_KEY", "k")]
    let naming : Environment := ("USER", []) :: env
    let files : Files := fun _ => .error .missing
    env.value? "KEYREG_USER" = some "alice" ∧
      (∀ name : Text, name ≠ "USER" → naming.value? name = env.value? name) ∧
      (load (.object env.members) files .console).result =
        .ok ⟨4000, ⟨"alice", "k"⟩, "localhost", 10000⟩ ∧
      (load (.object naming.members) files .console).result =
        .error (.invalidEnvironment [⟨"USER", .emptyText⟩]) := by
  intro env naming files
  exact ⟨rfl, fun name hName => value?_cons_of_ne hName.symm [] env, rfl, rfl⟩

end Job

end Enroll
