import Enroll.Proofs.Command.Run
import Enroll.Proofs.Config.DotEnv

/-!
# The process from start to exit

The process is a run in the environment that its dotenv file leaves, told in lines and printed on
the console. It ends by itself if the run had an outcome, and with one report of the failure if it
had none.
-/

namespace Enroll.Command

open Client Loop

/-- The loggers of the process, at the level that its environment sets. -/
def loggers (env : Environment) : LogSource :=
  .lines service (some (Level.ofSetting (env.value? "LOG_LEVEL")))

/-- How the process ends after a run that came to something and all that was seen till then. -/
inductive Exits : Settled Nat → List Event → ProcessReport → Prop where
  | finished (code a : Nat) (events : List Event) :
    Exits ⟨.ok code, a⟩ events ⟨some (.finished code), a, events⟩
  | fatal (f : Failure) (a : Nat) (events : List Event) :
    Exits ⟨.error f, a⟩ events ⟨some .fatal, a, events ++ [⟨a, fatalReport f⟩]⟩

def isFatalReport : Effect → Bool
  | .console _ [.text _, .failure _] => true
  | _ => false

def runIn [Nesting] (env : Environment) (files : Files) : Act (Call Nat) :=
  run (.object env.members) files (loggers env) .console

/-- What becomes of a process that loads an environment: a run in it comes to something, and the
process ends accordingly, by itself if and only if there was an outcome. -/
structure Concludes [Nesting] (env : Environment) (here : Text) (files : Files) (s : Script)
    (loaded : Environment) : Prop where
  loads : (DotEnv.load env here files).result = .ok loaded
  completes : DotEnv.given? env "DOTENV_CONFIG_OVERRIDE" = none → ∀ name,
    loaded.value? name = (env.value? name).or ((DotEnv.additions env here files).value? name)
  ends : ∃ settled events,
    (solo (runIn loaded files) s).results = [some settled] ∧
      (solo (runIn loaded files) s).notes.map Note.event = events ∧
      Runs (.object loaded.members) files (loggers loaded) .console s 0 settled events ∧
      Exits settled ((DotEnv.load env here files).effects.map (Event.mk 0) ++ events)
        (process env here files s)
  finished_iff : (process env here files s).ending = some (.finished 0) ↔
    Obtains (.object loaded.members) files (loggers loaded) s 0
  fatal_iff : (process env here files s).ending = some .fatal ↔
    ¬ Obtains (.object loaded.members) files (loggers loaded) s 0
  reports : ((process env here files s).events.filter fun e => isFatalReport e.effect).length =
    match (process env here files s).ending with
    | some .fatal => 1
    | _ => 0

/-! ## The end of a process -/

theorem opening_eq [Nesting] (env : Environment) (here : Text) (files : Files) :
    opening env here files =
      ⟨(DotEnv.load env here files).effects ++ (runIn (DotEnv.loaded env here files) files).effects,
        (runIn (DotEnv.loaded env here files) files).result⟩ :=
  Act.bind_of_ok (DotEnv.remarks_load env here files).result _

theorem exits_process [Nesting] (env : Environment) (here : Text) {files : Files} {s : Script}
    {settled : Settled Nat}
    (hRun : (solo (runIn (DotEnv.loaded env here files) files) s).results = [some settled]) :
    Exits settled ((DotEnv.load env here files).effects.map (Event.mk 0) ++
        (solo (runIn (DotEnv.loaded env here files) files) s).notes.map Note.event)
      (process env here files s) := by
  obtain ⟨hResults, hEvents⟩ := soloAt_preceded (DotEnv.load env here files).effects
    (runIn (DotEnv.loaded env here files) files) 0 s
  rw [← opening_eq] at hResults hEvents
  have hSettled : (solo (opening env here files) s).results = [some settled] := hResults.trans hRun
  have hTime : (solo (opening env here files) s).time = settled.time := time_soloAt hSettled
  have hSeen : (solo (opening env here files) s).notes.map Note.event =
      (DotEnv.load env here files).effects.map (Event.mk 0) ++
        (solo (runIn (DotEnv.loaded env here files) files) s).notes.map Note.event := hEvents
  rw [← hSeen]
  -- the clock was left when the run settled, which is when a failure is reported
  obtain ⟨result, a⟩ := settled
  cases result with
  | ok code =>
    simp only [process, hSettled, hTime]
    exact .finished code a _
  | error f =>
    simp only [process, hSettled, hTime]
    exact .fatal f a _

theorem Exits.ending_iff {settled : Settled Nat} {seen : List Event} {report : ProcessReport}
    (h : Exits settled seen report)
    (hResult : settled.result = .ok 0 ∨ ∃ f, settled.result = .error f) :
    (report.ending = some (.finished 0) ↔ settled.result = .ok 0) ∧
      (report.ending = some .fatal ↔ ¬ settled.result = .ok 0) := by
  cases h with
  | finished code a =>
    obtain rfl : code = 0 := by simpa using hResult
    simp
  | fatal f a => simp

/-! ## The report -/

theorem Exits.reports {settled : Settled Nat} {seen : List Event} {report : ProcessReport}
    (h : Exits settled seen report)
    (hNone : seen.filter (fun e => isFatalReport e.effect) = []) :
    (report.events.filter fun e => isFatalReport e.effect).length =
      match report.ending with
      | some .fatal => 1
      | _ => 0 := by
  cases h with
  | finished code a =>
    rw [hNone]
    rfl
  | fatal f a =>
    rw [List.filter_append, hNone]
    rfl

theorem isFatalReport_of_isLine {e : Effect} (h : e.isLine) : isFatalReport e = false := by
  unfold Effect.isLine at h
  split at h
  · rfl
  · simp at h

theorem Aside.isFatalReport [Nesting] {service : Text} {threshold : Option Level} {e : Effect}
    (h : Aside (.lines service threshold) .console e) : isFatalReport e = false := by
  cases h with
  | announced part hAnnounced => exact absurd hAnnounced List.not_mem_nil
  | said part hSays => exact isFatalReport_of_isLine hSays.isLine
  | printed line hPrints =>
    cases hPrints
    rfl
  | _ => rfl

theorem filter_isFatalReport_runs [Nesting] {env : Json} {files : Files} {service : Text}
    {threshold : Option Level} {s : Script} {now : Nat} {settled : Settled Nat}
    {events : List Event}
    (h : Runs env files (.lines service threshold) .console s now settled events) :
    events.filter (fun e => Command.isFatalReport e.effect) = [] := by
  obtain ⟨before, after, rfl, hBefore, hAfter⟩ := h.eq_asides
  rw [List.filter_eq_nil_iff]
  intro e he
  rcases List.mem_append.mp he with he | he
  · rcases List.mem_append.mp he with he | he
    · simp [(hBefore e he).isFatalReport]
    · unfold requests at he
      split at he
      · obtain rfl := List.mem_singleton.mp he
        simp [Command.isFatalReport]
      · exact absurd he List.not_mem_nil
  · simp [(hAfter e he).isFatalReport]

theorem concludes [Nesting] {s : Script} (hScript : s.heedsAbort) (env : Environment) (here : Text)
    (files : Files) : Concludes env here files s (DotEnv.loaded env here files) := by
  have hRemarks := DotEnv.remarks_load env here files
  have hLoggers : (loggers (DotEnv.loaded env here files)).NeverFails := trivial
  have hConsole : Printing.console.NeverFails := trivial
  obtain ⟨settled, hResults, hRuns⟩ := runs_of_run
    (.object (DotEnv.loaded env here files).members) files hLoggers hConsole hScript 0
  have hExits := exits_process env here hResults
  have hRemarked : ((DotEnv.load env here files).effects.map (Event.mk 0)).filter
      (fun e => isFatalReport e.effect) = [] := by
    rw [List.filter_eq_nil_iff]
    intro e he
    obtain ⟨effect, hEffect, rfl⟩ := List.mem_map.mp he
    simp [isFatalReport_of_isLine (hRemarks.lines effect hEffect)]
  obtain ⟨hFinished, hFatal⟩ := hExits.ending_iff hRuns.result
  refine ⟨hRemarks.result, fun hKeeps => DotEnv.value?_loaded hKeeps here files,
    ⟨settled, _, hResults, rfl, hRuns, hExits⟩, ?_, ?_, hExits.reports ?_⟩
  · rw [hFinished, hRuns.ok_iff]
  · rw [hFatal, hRuns.ok_iff]
  · rw [List.filter_append, hRemarked]
    exact filter_isFatalReport_runs hRuns

/-- For any environment, files, logger and printer that do not fail: a run comes to something and
shows what `Runs` says, with one request if it has a job and none if it has not; till then nothing
shows but what the loader's logger says, and after its end nothing at all. For any environment of
the process, the same run in what dotenv leaves of it decides how the process ends. -/
theorem command_runs_to_exit [Nesting] {source : LogSource} (hSource : source.NeverFails)
    {p : Printing} (hPrint : p.NeverFails) {s : Script} (hScript : s.heedsAbort) (env : Json)
    (files : Files) (now : Nat) (settings : Environment) (here : Text) :
    let report := soloAt now (run env files source p) s
    let events := report.notes.map Note.event
    (∃ settled, report.results = [some settled] ∧
      Runs env files source p s now settled events) ∧
    events.filter (fun e => e.effect.isSent) = requests env files source now ∧
    (∀ e ∈ (loading env files source).effects, (source.logger (service ++ ":run")).Says e) ∧
    (∀ more l, Moves ((startingAt now).perform (.single (run env files source p) s)).1 more l →
      more = []) ∧
    ∃ loaded, Concludes settings here files s loaded := by
  intro report events
  obtain ⟨settled, hResults, hRuns⟩ := runs_of_run env files hSource hPrint hScript now
  refine ⟨⟨settled, hResults, hRuns⟩, hRuns.filter_isSent, ?_, ?_, ?_⟩
  · exact Job.says_load env files _
  · exact fun more l hMoves => silent_after_solo hMoves
  · exact ⟨_, concludes hScript settings here files⟩

/-- A registration that is turned down, in a run and in a process whose key is in its file. -/
theorem command_runs_to_exit_turned_down :
    let env : Json := .object
      [("KEYREG_PORT", .string "4000"), ("USER", .string "alice"), ("KEYREG_KEY", .string "k")]
    let settings : Environment := [("KEYREG_PORT", "4000"), ("USER", "alice")]
    let files : Files := fun path =>
      if path = ".env" then .ok (.file (Utf8.encode "KEYREG_KEY=k")) else .error .missing
    let source : LogSource := .plain [.warn] fun _ => none
    let s : Script := ⟨.after 3 (.ok ⟨500, .whole [0x6E, 0x6F]⟩), true, .aborted⟩
    let report := soloAt 2 (run env files source .captured) s
    report.results = [some ⟨.ok 0, 5⟩] ∧
      Runs env files source .captured s 2 ⟨.ok 0, 5⟩ (report.notes.map Note.event) ∧
      ∃ loaded, Concludes settings "/" files s loaded := by
  intro env settings files source s report
  have hSource : source.NeverFails := fun _ _ => rfl
  have hPrint : Printing.captured.NeverFails := trivial
  have hScript : s.heedsAbort := rfl
  obtain ⟨⟨settled, hResults, hRuns⟩, -, -, -, hConcludes⟩ :=
    command_runs_to_exit hSource hPrint hScript env files 2 settings "/"
  have hTurnedDown : report.results = [some ⟨.ok 0, 5⟩] := rfl
  obtain rfl : settled = ⟨.ok 0, 5⟩ := by simpa using hResults.symm.trans hTurnedDown
  exact ⟨hTurnedDown, hRuns, hConcludes⟩

end Enroll.Command
