import Enroll.Command
import Enroll.Proofs.Client.Deadline
import Enroll.Proofs.Client.Trace
import Enroll.Proofs.Config.Job

/-!
# A run of the command

A run that finds no job fails before anything is sent. A run that has one makes its registration,
prints a line if that was turned down, and fails only as the registration did. `Runs` says what a
run comes to and all that it shows; beside its request that is nothing but asides.
-/

namespace Enroll.Command

open Client Loop

/-! ## What is to show -/

def Printing.NeverFails : Printing → Prop
  | .captured | .console => True
  | .failing _ => False

inductive Prints : Printing → Text → Effect → Prop where
  | captured (line : Text) : Prints .captured line (.printed line)
  | console (line : Text) : Prints .console line (.console .log [.text line])

def loading [Nesting] (env : Json) (files : Files) (source : LogSource) : Act Job :=
  Job.load env files (source.logger (service ++ ":run"))

def clientOf (source : LogSource) (job : Job) : Client :=
  ⟨job.host, job.timeout, source.logger Client.part⟩

def operationOf (job : Job) : Operation := .register job.port job.registration

def requestOf (source : LogSource) (job : Job) : Request :=
  (operationOf job).request (clientOf source job)

/-- What a registration leaves of a run: what the run comes to, the entries of the log at the end,
and what is printed after them. -/
inductive Ends [Nesting] (c : Client) (job : Job) (p : Printing) :
    Settled Outcome → Settled Nat → List LogEntry → List Event → Prop where
  | accepted (a : Nat) :
    Ends c job p ⟨.ok .accepted, a⟩ ⟨.ok 0, a⟩ [acceptedEntry job.port job.registration] []
  | rejected (status : Nat) (diagnostic : Diagnostic) (a : Nat) {e : Effect}
      (hPrints : Prints p diagnostic.line e) :
    Ends c job p ⟨.ok (.rejected status diagnostic), a⟩ ⟨.ok 0, a⟩
      [rejectedEntry job.port job.registration status diagnostic] [⟨a, e⟩]
  | failed (f : Failure) (a : Nat) {closing : List LogEntry}
      (hClosing : Closes c (operationOf job) (.error f) closing) :
    Ends c job p ⟨.error f, a⟩ ⟨.error f, a⟩ closing []

/-- What a run comes to and all that shows of it. -/
inductive Runs [Nesting] (env : Json) (files : Files) (source : LogSource) (p : Printing)
    (s : Script) (now : Nat) : Settled Nat → List Event → Prop where
  | unloaded {f : Failure} (hLoad : (loading env files source).result = .error f) :
    Runs env files source p s now ⟨.error f, now⟩
      ((source.announces (service ++ ":run") ++ (loading env files source).effects).map
        (Event.mk now))
  | registered {job : Job} {had : Settled Outcome} {settled : Settled Nat} {middle : List Event}
      {closing : List LogEntry} {printed : List Event}
      (hLoad : (loading env files source).result = .ok job)
      (hRegisters : (soloAt now ((clientOf source job).register job.port job.registration)
        s).results = [some had])
      (hMiddle : Follows (operationOf job) s (timerDelay job.timeout) now middle)
      (hEnds : Ends (clientOf source job) job p had settled closing printed) :
    Runs env files source p s now settled
      ((source.announces (service ++ ":run") ++ (loading env files source).effects ++
          source.announces Client.part).map (Event.mk now) ++
        (clientOf source job).shown now ((clientOf source job).opens (operationOf job)) ++
        ⟨now, .sent (requestOf source job) false⟩ :: middle ++
        (clientOf source job).shown settled.time closing ++ printed)

/-- Whether a run obtains an outcome: it has a job, and its registration is accepted or turned
down. -/
def Obtains [Nesting] (env : Json) (files : Files) (source : LogSource) (s : Script) (now : Nat) :
    Prop :=
  ∃ job outcome a, (loading env files source).result = .ok job ∧
    (soloAt now ((clientOf source job).register job.port job.registration) s).results =
      [some ⟨.ok outcome, a⟩]

def requests [Nesting] (env : Json) (files : Files) (source : LogSource) (now : Nat) : List Event :=
  match (loading env files source).result with
  | .ok job => [⟨now, .sent (requestOf source job) false⟩]
  | .error _ => []

/-! ## A run -/

theorem print_of_neverFails {p : Printing} (hPrint : p.NeverFails) (line : Text) :
    ∃ e, Prints p line e ∧ p.print line = .emit e := by
  cases p with
  | captured => exact ⟨_, .captured line, rfl⟩
  | console => exact ⟨_, .console line, rfl⟩
  | failing f => exact absurd hPrint id

theorem shows_print (p : Printing) (line : Text) : (p.print line).Shows (Prints p line) := by
  intro e he
  cases p with
  | captured =>
    obtain rfl := List.mem_singleton.mp he
    exact .captured line
  | console =>
    obtain rfl := List.mem_singleton.mp he
    exact .console line
  | failing f => exact absurd he List.not_mem_nil

section Run

variable {env : Json} {files : Files} {source : LogSource} {p : Printing}

theorem run_of_unloaded [Nesting] {f : Failure}
    (hLoad : (loading env files source).result = .error f) :
    run env files source p =
      ⟨source.announces (service ++ ":run") ++ (loading env files source).effects, .error f⟩ := by
  rw [run, LogSource.resolve_eq, Act.bind_of_ok rfl]
  rw [loading] at hLoad
  rw [Act.bind_of_error hLoad]
  rfl

theorem run_of_job [Nesting] (hSource : source.NeverFails) {job : Job}
    (hLoad : (loading env files source).result = .ok job) :
    run env files source p =
      ⟨source.announces (service ++ ":run") ++ (loading env files source).effects ++
          source.announces Client.part ++
          ((clientOf source job).register job.port job.registration).effects,
        .ok (Call.closing ((clientOf source job).registering job.port job.registration) fun o =>
          report p ((clientOf source job).closeRegister job.port job.registration.name
            ((clientOf source job).url job.port registerPath) o))⟩ := by
  have hCreate : Client.create (some job.host) (some job.timeout) source =
      ⟨source.announces Client.part, .ok (clientOf source job)⟩ := by
    rw [Client.create, LogSource.resolve_eq, Act.bind_of_ok rfl]
    simp [Pure.pure, Act.pure, clientOf]
  have hLog : (clientOf source job).log.NeverFails := hSource.logger Client.part
  have hRegister := register_of_valid hLog (Job.validPort_of_load hLoad) job.registration
  rw [run, LogSource.resolve_eq, Act.bind_of_ok rfl]
  rw [loading] at hLoad
  rw [Act.bind_of_ok hLoad, hCreate, Act.bind_of_ok rfl, hRegister, Act.bind_of_ok rfl,
    Call.mapAct_closing]
  simp [Pure.pure, Act.pure, loading]

theorem report_of_error [Nesting] (effects : List Effect) (f : Failure) :
    report p ⟨effects, .error f⟩ = ⟨effects, .error f⟩ := rfl

theorem report_of_accepted [Nesting] (effects : List Effect) :
    report p ⟨effects, .ok .accepted⟩ = ⟨effects, .ok 0⟩ := by
  rw [report, Act.bind_of_ok rfl]
  simp [Pure.pure, Act.pure]

theorem report_of_rejected [Nesting] (effects : List Effect) (status : Nat)
    (diagnostic : Diagnostic) :
    report p ⟨effects, .ok (.rejected status diagnostic)⟩ =
      ⟨effects ++ (p.print diagnostic.line).effects,
        (p.print diagnostic.line).result.map fun _ => 0⟩ := by
  rw [report, Act.bind_of_ok rfl]
  simp only [Act.map_eq]

theorem ends_report [Nesting] (hSource : source.NeverFails) (hPrint : p.NeverFails) (job : Job)
    (o : Except Failure Outcome) (a : Nat) :
    let c := clientOf source job
    let act := report p (c.closeRegister job.port job.registration.name
      (c.url job.port registerPath) o)
    ∃ closing printed, Ends c job p ⟨o, a⟩ ⟨act.result, a⟩ closing printed ∧
      act.effects.map (Event.mk a) = c.shown a closing ++ printed := by
  intro c act
  have hLog : c.log.NeverFails := hSource.logger Client.part
  obtain ⟨closing, hClosing, hClose⟩ := closes_register hLog job.port job.registration o
  have hAct : act = report p ⟨closing.flatMap c.log.shows, o⟩ := congrArg (report p) hClose
  -- how the registration closed fixes its entries, so each case of `Closes` is one of `Ends`
  cases o with
  | error f =>
    rw [hAct, report_of_error]
    exact ⟨closing, [], .failed f a hClosing, (List.append_nil _).symm⟩
  | ok outcome =>
    cases outcome with
    | accepted =>
      cases hClosing
      rw [hAct, report_of_accepted]
      exact ⟨_, [], .accepted a, (List.append_nil _).symm⟩
    | rejected status diagnostic =>
      cases hClosing
      obtain ⟨e, hPrints, hEmit⟩ := print_of_neverFails hPrint diagnostic.line
      rw [hAct, report_of_rejected, hEmit]
      exact ⟨_, [⟨a, e⟩], .rejected status diagnostic a hPrints, List.map_append⟩

theorem verdict_registering [Nesting] {s : Script} (hScript : s.heedsAbort) (c : Client)
    (port : Number) (r : Registration) : ∃ t o, (c.registering port r).verdict s = some (t, o) := by
  have hReacts : ∀ status, ((c.registering port r).react status).heeds := heeds_registerReaction
  obtain ⟨t, o, hAttempt, -⟩ := Exchange.attempt_of_heeds hReacts hScript
  rw [Exchange.verdict, hAttempt]
  exact ⟨t, _, rfl⟩

theorem runs_of_job [Nesting] (hSource : source.NeverFails) (hPrint : p.NeverFails) {s : Script}
    (hScript : s.heedsAbort) {job : Job} (hLoad : (loading env files source).result = .ok job)
    (now : Nat) :
    ∃ settled, (soloAt now (run env files source p) s).results = [some settled] ∧
      Runs env files source p s now settled
        ((soloAt now (run env files source p) s).notes.map Note.event) := by
  let c := clientOf source job
  let x := c.registering job.port job.registration
  have hLog : c.log.NeverFails := hSource.logger Client.part
  have hRun := run_of_job (p := p) hSource hLoad
  have hRegister := register_of_valid hLog (Job.validPort_of_load hLoad) job.registration
  obtain ⟨t, o, hVerdict⟩ := verdict_registering hScript c job.port job.registration
  -- the registration alone, which the run is compared with
  obtain ⟨hHad, -, -⟩ := soloAt_closing (congrArg Act.result hRegister) now s
  obtain ⟨entries, -, hClose⟩ := closes_register hLog job.port job.registration o
  rw [hVerdict, Option.map_some, hClose] at hHad
  obtain ⟨hResults, -, hEvents⟩ := soloAt_closing (congrArg Act.result hRun) now s
  rw [hVerdict] at hResults hEvents
  obtain ⟨closing, printed, hEnds, hShown⟩ := ends_report hSource hPrint job o (now + t)
  have hFollows := follows_of_treats (treats_registering c job.port job.registration) s now
  have hRuns := Runs.registered hLoad hHad hFollows hEnds
  have hOpening : (c.register job.port job.registration).effects.map (Event.mk now) =
      c.shown now (c.opens (operationOf job)) := by
    rw [hRegister, Client.shown]
    exact congrArg _ (List.flatMap_singleton _ _).symm
  have hClosed : ∀ act : Except Failure Outcome → Act Nat,
      closed act (Course.later now (some (t, o))) = (act o).effects.map (Event.mk (now + t)) :=
    fun _ => rfl
  have hRequest : x.request = requestOf source job := rfl
  refine ⟨_, hResults, ?_⟩
  rw [hEvents, hRun, hClosed, hShown, hRequest, List.map_append, List.map_append, hOpening]
  simpa using hRuns

theorem runs_of_run [Nesting] (env : Json) (files : Files) (hSource : source.NeverFails)
    (hPrint : p.NeverFails) {s : Script} (hScript : s.heedsAbort) (now : Nat) :
    ∃ settled, (soloAt now (run env files source p) s).results = [some settled] ∧
      Runs env files source p s now settled
        ((soloAt now (run env files source p) s).notes.map Note.event) := by
  cases hLoad : (loading env files source).result with
  | error f =>
    have hRun := run_of_unloaded (p := p) hLoad
    have hFails : (run env files source p).result = .error f := congrArg Act.result hRun
    obtain ⟨hResults, hEvents⟩ := soloAt_of_failed hFails now s
    refine ⟨_, hResults, ?_⟩
    rw [hEvents, hRun]
    exact .unloaded hLoad
  | ok job => exact runs_of_job hSource hPrint hScript hLoad now

end Run

section Law

variable {env : Json} {files : Files} {source : LogSource} {p : Printing} {s : Script} {now : Nat}

/-! ## What a run comes to -/

theorem Runs.ok_iff [Nesting] {settled : Settled Nat} {events : List Event}
    (h : Runs env files source p s now settled events) :
    settled.result = .ok 0 ↔ Obtains env files source s now := by
  unfold Obtains
  cases h with
  | unloaded hLoad => simp [hLoad]
  | registered hLoad hRegisters hMiddle hEnds =>
    cases hEnds <;> simp [hLoad, hRegisters]

theorem Runs.result [Nesting] {settled : Settled Nat} {events : List Event}
    (h : Runs env files source p s now settled events) :
    settled.result = .ok 0 ∨ ∃ f, settled.result = .error f := by
  cases h with
  | unloaded hLoad => exact .inr ⟨_, rfl⟩
  | registered hLoad hRegisters hMiddle hEnds => cases hEnds <;> simp

/-! ## What shows beside the request -/

/-- What may show of a run beside its request. -/
inductive Aside [Nesting] (source : LogSource) (p : Printing) : Effect → Prop where
  | announced (part : Text) {e : Effect} (hAnnounced : e ∈ source.announces part) :
    Aside source p e
  | said (part : Text) {e : Effect} (hSays : (source.logger part).Says e) : Aside source p e
  | read : Aside source p .read
  | cancelled : Aside source p .cancelled
  | aborted : Aside source p .aborted
  | printed (line : Text) {e : Effect} (hPrints : Prints p line e) : Aside source p e

def Asides [Nesting] (source : LogSource) (p : Printing) (events : List Event) : Prop :=
  ∀ e ∈ events, Aside source p e.effect

theorem asides_append [Nesting] {events more : List Event} (h : Asides source p events)
    (hMore : Asides source p more) : Asides source p (events ++ more) := by
  intro e he
  rcases List.mem_append.mp he with he | he
  · exact h e he
  · exact hMore e he

theorem asides_map [Nesting] {effects : List Effect} (h : ∀ e ∈ effects, Aside source p e)
    (time : Nat) : Asides source p (effects.map (Event.mk time)) := by
  intro e he
  obtain ⟨effect, hEffect, rfl⟩ := List.mem_map.mp he
  exact h effect hEffect

theorem asides_shown [Nesting] (job : Job) (time : Nat) (entries : List LogEntry) :
    Asides source p ((clientOf source job).shown time entries) := by
  apply asides_map
  intro effect hEffect
  obtain ⟨e, -, he⟩ := List.mem_flatMap.mp hEffect
  exact .said Client.part ⟨e, he⟩

theorem asides_follows [Nesting] {op : Operation} {d : Nat} {middle : List Event}
    (h : Follows op s d now middle) : Asides source p middle := by
  have hTouches : ∀ touched, Touches op s d now touched → Asides source p touched := by
    intro touched hTouched e he
    cases hTouched with
    | unanswered | unseen => exact absurd he List.not_mem_nil
    | read =>
      obtain rfl := List.mem_singleton.mp he
      exact .read
    | cancelled =>
      obtain rfl := List.mem_singleton.mp he
      exact .cancelled
  have hAborted : Asides source p [⟨now + d, .aborted⟩] := by
    intro e he
    obtain rfl := List.mem_singleton.mp he
    exact .aborted
  cases h with
  | kept hTouched => exact hTouches _ hTouched
  | abortedAfter hTouched => exact asides_append (hTouches _ hTouched) hAborted
  | abortedBefore hTouched => exact asides_append hAborted (hTouches _ hTouched)

theorem asides_ends [Nesting] {c : Client} {job : Job} {had : Settled Outcome}
    {settled : Settled Nat} {closing : List LogEntry} {printed : List Event}
    (h : Ends c job p had settled closing printed) : Asides source p printed := by
  intro e he
  cases h with
  | accepted | failed => exact absurd he List.not_mem_nil
  | rejected status diagnostic a hPrints =>
    obtain rfl := List.mem_singleton.mp he
    exact .printed _ hPrints

/-- A run shows its request, if it has a job, and asides around it. -/
theorem Runs.eq_asides [Nesting] {settled : Settled Nat} {events : List Event}
    (h : Runs env files source p s now settled events) :
    ∃ before after, events = before ++ requests env files source now ++ after ∧
      Asides source p before ∧ Asides source p after := by
  have hLoading : ∀ e ∈ source.announces (service ++ ":run") ++ (loading env files source).effects,
      Aside source p e := by
    intro e he
    rcases List.mem_append.mp he with he | he
    · exact .announced _ he
    · exact .said _ (Job.says_load env files _ e he)
  have hAnnounced : ∀ e ∈ source.announces Client.part, Aside source p e := fun e he =>
    .announced _ he
  cases h with
  | unloaded hLoad =>
    refine ⟨_, [], ?_, asides_map hLoading now, fun _ he => absurd he List.not_mem_nil⟩
    rw [requests, hLoad, List.append_nil, List.append_nil]
  | registered hLoad hRegisters hMiddle hEnds =>
    rename_i job had middle closing printed
    refine ⟨_, middle ++ (clientOf source job).shown settled.time closing ++ printed, ?_,
      asides_append (asides_append (asides_map hLoading now) (asides_map hAnnounced now))
        (asides_shown job now ((clientOf source job).opens (operationOf job))), ?_⟩
    · rw [requests, hLoad]
      simp
    · exact asides_append (asides_append (asides_follows hMiddle) (asides_shown job _ _))
        (asides_ends hEnds)

theorem Aside.isSent [Nesting] {e : Effect} (h : Aside source p e) : e.isSent = false := by
  cases h with
  | announced part hAnnounced =>
    rw [LogSource.eq_of_mem_announces hAnnounced]
    rfl
  | said part hSays =>
    have hEntry := hSays.isEntry
    cases e <;> simp_all [Effect.isEntry, Effect.isSent]
  | printed line hPrints => cases hPrints <;> rfl
  | _ => rfl

theorem Runs.filter_isSent [Nesting] {settled : Settled Nat} {events : List Event}
    (h : Runs env files source p s now settled events) :
    events.filter (fun e => e.effect.isSent) = requests env files source now := by
  obtain ⟨before, after, rfl, hBefore, hAfter⟩ := h.eq_asides
  have hNone : ∀ {asides : List Event}, Asides source p asides →
      asides.filter (fun e => e.effect.isSent) = [] := by
    intro asides hAsides
    rw [List.filter_eq_nil_iff]
    intro e he
    simp [(hAsides e he).isSent]
  rw [List.filter_append, List.filter_append, hNone hBefore, hNone hAfter, List.append_nil,
    List.nil_append, requests]
  split <;> rfl

end Law

end Enroll.Command
