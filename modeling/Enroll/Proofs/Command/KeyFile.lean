import Enroll.Proofs.Command.Interruption
import Enroll.Proofs.Config.KeyFile

/-!
# A run with its key in a file

A run whose key is in a file is the run whose key is given, with the entry of the log about the file
put in where the job is loaded. It is broken off there if that entry fails, as nothing else of it can
come before.
-/

namespace Enroll

namespace Command

open Job Loop

/-- A run and the one that tells of a key file first, by what is loaded. -/
inductive TellsFirst (announced : List Effect) (entry : Act Unit) (now : Nat)
    (report report' : Report Nat) : Except Failure Job → Prop where
  | unloaded (f : Failure) (hResults : report.results = [some ⟨.error f, now⟩])
      (hResults' : report'.results = report.results) (hPending : report'.pending = report.pending)
      (hEvents : report'.events = report.events) :
    TellsFirst announced entry now report report' (.error f)
  | told (job : Job) {rest : List Event} (hEntry : entry.result = .ok ())
      (hResults : report'.results = report.results) (hPending : report'.pending = report.pending)
      (hEvents : report.events = announced.map (Event.mk now) ++ rest)
      (hEvents' : report'.events = announced.map (Event.mk now) ++
        (entry.effects.map (Event.mk now) ++ rest)) :
    TellsFirst announced entry now report report' (.ok job)
  | brokenOff (job : Job) {f : Failure} (hEntry : entry.result = .error f)
      (hResults : report'.results = [some ⟨.error f, now⟩]) (hPending : report'.pending = 0)
      (hEvents : report'.events = (announced ++ entry.effects).map (Event.mk now)) :
    TellsFirst announced entry now report report' (.ok job)

section Run

variable {source : LogSource} {p : Printing} {env env' : Json} {files : Files}

/-- What a run does once it has its job. -/
def proceed [Nesting] (source : LogSource) (p : Printing) (job : Job) : Act (Call Nat) := do
  let client ← Client.create (some job.host) (some job.timeout) source
  let call ← client.register job.port job.registration
  pure (call.mapAct (report p))

theorem run_of_loaded [Nesting] {effects : List Effect} {job : Job}
    (hLoad : loading env files source = ⟨effects, .ok job⟩) :
    run env files source p = ⟨source.announces (service ++ ":run") ++ effects ++
      (proceed source p job).effects, (proceed source p job).result⟩ := by
  rw [loading] at hLoad
  rw [run, LogSource.resolve_eq, Act.bind_of_ok rfl, hLoad, Act.bind_of_ok rfl, List.append_assoc]
  rfl

theorem tellsFirst_of_loading [Nesting] {entry : Act Unit} {loaded : Except Failure Job}
    (hLoad : loading env files source = ⟨[], loaded⟩)
    (hLoad' : loading env' files source = toldFirst entry loaded) (s : Script) (now : Nat) :
    TellsFirst (source.announces (service ++ ":run")) entry now
      (soloAt now (run env files source p) s) (soloAt now (run env' files source p) s) loaded := by
  -- nothing of a run comes before its job is loaded but what its source announces
  cases loaded with
  | error f =>
    have hRun := run_of_unloaded (p := p) (congrArg Act.result hLoad)
    have hRun' := run_of_unloaded (p := p) (congrArg Act.result hLoad')
    have hSame : run env' files source p = run env files source p := by
      rw [hRun, hRun', hLoad, hLoad']
      rfl
    rw [hSame]
    exact .unloaded f (soloAt_of_failed (congrArg Act.result hRun) now s).1 rfl rfl rfl
  | ok job =>
    cases hEntry : entry.result with
    | error f =>
      have hFails : (loading env' files source).result = .error f := by
        rw [hLoad', toldFirst, hEntry]
        rfl
      have hRun' := run_of_unloaded (p := p) hFails
      obtain ⟨hResults, hEvents⟩ := soloAt_of_failed (congrArg Act.result hRun') now s
      refine .brokenOff job hEntry hResults (pending_soloAt _ now s) ?_
      rw [Report.events, hEvents, hRun', hLoad']
      rfl
    | ok _ =>
      have hTold : loading env' files source = ⟨entry.effects, .ok job⟩ := by
        rw [hLoad', toldFirst, hEntry]
        rfl
      rw [run_of_loaded hLoad, run_of_loaded hTold, List.append_nil]
      obtain ⟨hResults, hEvents⟩ := soloAt_preceded (source.announces (service ++ ":run"))
        (proceed source p job) now s
      obtain ⟨hResults', hEvents'⟩ := soloAt_preceded
        (source.announces (service ++ ":run") ++ entry.effects) (proceed source p job) now s
      refine .told job hEntry (hResults'.trans hResults.symm) ?_ hEvents ?_
      · rw [pending_soloAt, pending_soloAt]
      · rw [Report.events, hEvents', List.map_append, List.append_assoc]

end Run

/-- A key in a file, with blanks around it or not, makes the same job as the key itself, or fails as
it does; and a run goes as the one with the key does. It has one entry of the log more, if its logger
makes entries of that level, and it ends with this entry if that fails. -/
theorem run_with_key_in_file [Nesting] {env env' : Environment} {files : Files} {path k : Text}
    (h : KeyInFile env files env' path k) :
    ∃ loaded : Except Failure Job, (∀ job, loaded = .ok job → job.registration.key = k) ∧
      (∀ log : Logger, load (.object env.members) files log = ⟨[], loaded⟩ ∧
        load (.object env'.members) files log = toldFirst (reading log path) loaded ∧
        (reading log path).effects.length = (if log.has .info then 1 else 0) ∧
        (log.NeverFails → (reading log path).result = .ok ())) ∧
      ∀ (source : LogSource) (p : Printing) (s : Script) (now : Nat),
        TellsFirst (source.announces (service ++ ":run"))
          (reading (source.logger (service ++ ":run")) path) now
          (soloAt now (run (.object env.members) files source p) s)
          (soloAt now (run (.object env'.members) files source p) s) loaded := by
  obtain ⟨loaded, hKey, hLoad⟩ := load_of_key_in_file h
  refine ⟨loaded, hKey, fun log => ?_, fun source p s now => ?_⟩
  · obtain ⟨hGiven, hFiled⟩ := hLoad log
    exact ⟨hGiven, hFiled, log.length_shows (readingEntry path), fun hLog =>
      Logger.result_write hLog .info (readingEntry path).scalars _⟩
  · obtain ⟨hGiven, hFiled⟩ := hLoad (source.logger (service ++ ":run"))
    exact tellsFirst_of_loading hGiven hFiled s now

/-- A key of two lines with a pair of surrogates in it, behind a byte order mark. -/
theorem run_with_key_in_marked_file :
    let base : Environment := [("KEYREG_PORT", "4000"), ("USER", "bob")]
    let k : Text := [0x6B, 0x0A, 0x20, 0xD83D, 0xDD11]
    let files : Files := fun path =>
      if path = "id.pub" then .ok (.file (Utf8.encode ([0xFEFF] ++ k ++ [0x0D, 0x0A, 0xA0])))
      else .error .missing
    let given : Environment := ("KEYREG_KEY", k) :: base
    let named : Environment := ("KEYREG_KEY_FILE", "id.pub") :: base
    load (.object named.members) files .console =
        ⟨Logger.console.shows (readingEntry "id.pub"),
          .ok ⟨4000, ⟨"bob", k⟩, "localhost", 10000⟩⟩ ∧
      ∀ s : Script, (soloAt 5 (run (.object named.members) files .absent .captured) s).results =
        (soloAt 5 (run (.object given.members) files .absent .captured) s).results := by
  intro base k files given named
  have hPaired : k.Paired := .unit rfl (.unit rfl (.unit rfl (.pair rfl rfl .nil)))
  have hHolds : HoldsKey (Utf8.encode ([0xFEFF] ++ k ++ [0x0D, 0x0A, 0xA0])) k :=
    .mk (by decide) hPaired ⟨by rintro _ ⟨⟩; rfl, by rintro _ ⟨⟩; rfl⟩
      (List.all_eq_true.mp rfl) (List.all_eq_true.mp rfl)
  have hNone : Text.ofString "id.pub" ≠ [] := by decide
  have hInFile : KeyInFile given files named "id.pub" k :=
    .of_neither rfl rfl hNone ⟨_, if_pos rfl, hHolds⟩
  obtain ⟨loaded, -, hLoad, hRuns⟩ := run_with_key_in_file hInFile
  obtain ⟨hGiven, hNamed, -, hEntry⟩ := hLoad .console
  obtain rfl : loaded = .ok ⟨4000, ⟨"bob", k⟩, "localhost", 10000⟩ :=
    (congrArg Act.result hGiven).symm.trans rfl
  refine ⟨hNamed, fun s => ?_⟩
  cases hRuns .absent .captured s 5 with
  | told _ _ hResults => exact hResults
  | brokenOff _ hFails =>
    have hCalm := hEntry trivial
    rw [show Logger.console = LogSource.absent.logger (service ++ ":run") from rfl, hFails] at hCalm
    exact absurd hCalm (by simp)

/-- A logger that fails with the entry about the file takes the job with it. -/
theorem key_file_lost_with_its_entry :
    let base : Environment := [("KEYREG_PORT", "4000"), ("KEYREG_USER", "alice")]
    let files : Files := fun _ => .ok (.file (Utf8.encode "k"))
    let given : Environment := ("KEYREG_KEY", "k") :: base
    let named : Environment := ("KEYREG_KEY_FILE", "id.pub") :: base
    let failure : Failure := .error .plain "logger info failed" none none
    let log : Logger := .recorder none [.info] fun _ => some failure
    KeyInFile given files named "id.pub" "k" ∧
      (load (.object given.members) files log).result =
        .ok ⟨4000, ⟨"alice", "k"⟩, "localhost", 10000⟩ ∧
      (load (.object named.members) files log).result = .error failure := by
  intro base files given named failure log
  have hHolds : HoldsKey (Utf8.encode ([] ++ Text.ofString "k" ++ [])) "k" :=
    .mk (by decide) (.unit rfl .nil) ⟨by rintro _ ⟨⟩; rfl, by rintro _ ⟨⟩; rfl⟩
      (List.all_eq_true.mp rfl) (List.all_eq_true.mp rfl)
  have hNone : Text.ofString "id.pub" ≠ [] := by decide
  exact ⟨.of_neither rfl rfl hNone ⟨_, rfl, hHolds⟩, rfl, rfl⟩

end Command

end Enroll
