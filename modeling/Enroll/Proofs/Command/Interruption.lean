import Enroll.Proofs.Command.Run
import Enroll.Proofs.Interruption
import Enroll.Proofs.Registration.Body

/-!
# What a logger that fails does to a run

A logger can fail before the request, in answer to its failure, or once the outcome is known. In
every case it cuts what is done at that entry: loading a job, an operation of a client and a run of
the command are under it what they are under a quiet logger, up to its first failure.
-/

namespace Enroll

open Act

theorem LogSource.breaksOff_resolve (source : LogSource) (part : Text) :
    BreaksOff source.failure? (fun log log' => log = log'.quiet ∧ log'.failure? = source.failure?)
      (source.quiet.resolve part) (source.resolve part) := by
  rw [resolve_eq, resolve_eq, announces_quiet, logger_quiet]
  refine .ok ?_ ⟨rfl, source.failure?_logger part⟩
  intro e he
  rw [eq_of_mem_announces he]
  rfl

theorem LogSource.apart_resolve (source : LogSource) (part : Text) : (source.resolve part).Apart := by
  rw [resolve_eq]
  intro e he
  rw [eq_of_mem_announces he]
  rfl

/-! ## Loading a job -/

namespace Job

variable (files : Files) (log : Logger)

theorem breaksOff_keyOfFile [Nesting] (path : Text) :
    BreaksOff log.failure? Eq (keyOfFile files log.quiet path) (keyOfFile files log path) := by
  unfold keyOfFile
  cases files path with
  | error => exact breaksOff_fail _
  | ok node =>
    apply (breaksOff_write log _ _ _).bind
    intro _ _ _
    cases node with
    | directory => exact breaksOff_fail _
    | file => exact breaksOff_pure rfl

theorem breaksOff_key [Nesting] (v : Variables) :
    BreaksOff log.failure? Eq (key v files log.quiet) (key v files log) := by
  unfold key
  split
  · exact breaksOff_pure rfl
  · apply (breaksOff_keyOfFile files log _).bind
    rintro k _ rfl
    split
    · exact breaksOff_fail _
    · exact breaksOff_pure rfl
  · exact breaksOff_fail _

theorem breaksOff_load [Nesting] (env : Json) :
    BreaksOff log.failure? Eq (load env files log.quiet) (load env files log) := by
  apply (breaksOff_ofExcept _).bind
  rintro v _ rfl
  have hUser : BreaksOff log.failure? Eq (user v) (user v) := by
    unfold user
    split
    · exact breaksOff_pure rfl
    · exact breaksOff_fail _
  apply hUser.bind
  rintro u _ rfl
  exact (breaksOff_key files log v).map _

end Job

/-! ## The operations of a client -/

namespace Client

def quiet (c : Client) : Client := { c with log := c.log.quiet }

theorem breaksOff_create (host : Option Text) (timeout : Option Number) (source : LogSource) :
    BreaksOff source.failure? (fun c c' => c = c'.quiet ∧ c'.log.failure? = source.failure?)
      (create host timeout source.quiet) (create host timeout source) := by
  apply (source.breaksOff_resolve part).bind
  rintro _ log ⟨rfl, hFailure⟩
  exact breaksOff_pure ⟨rfl, hFailure⟩

variable (c : Client) (port : Number)

theorem breaksOff_checkPort (operation : String) :
    BreaksOff c.log.failure? Eq (checkPort operation port) (checkPort operation port) := by
  unfold checkPort
  split
  · exact breaksOff_pure rfl
  · exact breaksOff_fail _

theorem breaksOff_closeRegister [Nesting] (name url : Text) (r : Except Failure Outcome) :
    BreaksOff c.log.failure? Eq (c.quiet.closeRegister port name url r)
      (c.closeRegister port name url r) := by
  cases r with
  | ok outcome =>
    refine BreaksOff.bind (R := Eq) ?_ fun _ _ _ => breaksOff_pure rfl
    cases outcome <;> exact breaksOff_write c.log _ _ _
  | error f =>
    refine BreaksOff.bind (R := Eq) ?_ fun _ _ _ => breaksOff_fail f
    cases f with
    | transport => exact breaksOff_write c.log _ _ _
    | _ => exact breaksOff_pure rfl

theorem breaksOff_closeHealth [Nesting] (url : Text) (r : Except Failure Bool) :
    BreaksOff c.log.failure? Eq (c.quiet.closeHealth url r) (c.closeHealth url r) := by
  cases r with
  | ok healthy => exact (breaksOff_write c.log _ _ _).bind fun _ _ _ => breaksOff_pure rfl
  | error f => exact breaksOff_fail f

theorem isEntry_closeHealth [Nesting] (url : Text) (r : Except Failure Bool) :
    (c.closeHealth url r).Shows fun e => e.isEntry := by
  cases r with
  | ok healthy => exact Shows.bind (c.log.isEntry_write _ _ _) fun _ => shows_pure _
  | error f => exact shows_fail f

theorem breaksOff_register [Nesting] (r : Registration) :
    BreaksOff c.log.failure? (ClosesAlike c.log.failure?)
      (c.quiet.register port r) (c.register port r) := by
  apply (breaksOff_checkPort c port _).bind
  intro _ _ _
  apply (breaksOff_write c.log _ _ _).bind
  intro _ _ _
  apply breaksOff_pure
  apply ClosesAlike.mk
  · exact breaksOff_closeRegister c port _ _
  · exact fun o => apart_of_isEntry (c.quiet.isEntry_closeRegister port _ _ o)

theorem breaksOff_checkHealth [Nesting] :
    BreaksOff c.log.failure? (ClosesAlike c.log.failure?)
      (c.quiet.checkHealth port) (c.checkHealth port) := by
  apply (breaksOff_checkPort c port _).bind
  intro _ _ _
  apply breaksOff_pure
  apply ClosesAlike.mk
  · exact breaksOff_closeHealth c _
  · exact fun o => apart_of_isEntry (c.quiet.isEntry_closeHealth _ o)

theorem breaksOff_call [Nesting] (op : Operation) :
    BreaksOff c.log.failure? (ClosesAlike c.log.failure?) (c.quiet.call op) (c.call op) := by
  cases op with
  | register port r =>
    apply (breaksOff_register c port r).mapAct
    · exact fun _ _ hBreaks => hBreaks.map _
    · exact fun _ hApart => hApart.bind fun _ => shows_pure _
  | checkHealth port =>
    apply (breaksOff_checkHealth c port).mapAct
    · exact fun _ _ hBreaks => hBreaks.map _
    · exact fun _ hApart => hApart.bind fun _ => shows_pure _

theorem apart_register [Nesting] (r : Registration) : (c.register port r).Apart :=
  apart_of_isEntry (c.register_cases port r).1

theorem apart_checkHealth [Nesting] : (c.checkHealth port).Apart := by
  refine Shows.bind ?_ fun _ => shows_pure _
  unfold checkPort
  split
  · exact shows_pure _
  · exact shows_fail _

theorem apart_call [Nesting] (op : Operation) : (c.call op).Apart := by
  cases op with
  | register port r => exact (c.apart_register port r).bind fun _ => shows_pure _
  | checkHealth port => exact (c.apart_checkHealth port).bind fun _ => shows_pure _

end Client

/-! ## A run -/

namespace Command

open Loop

theorem apart_print (p : Printing) (line : Text) : (p.print line).Apart := by
  intro e he
  cases shows_print p line e he <;> rfl

theorem apart_report [Nesting] (p : Printing) {x : Act Outcome} (h : x.Apart) :
    (report p x).Apart := by
  apply h.bind
  intro outcome
  cases outcome with
  | accepted => exact shows_pure _
  | rejected status diagnostic => exact (apart_print p _).bind fun _ => shows_pure _

theorem breaksOff_report [Nesting] (p : Printing) {failure? : Level → Option Failure}
    {x y : Act Outcome} (h : BreaksOff failure? Eq x y) :
    BreaksOff failure? Eq (report p x) (report p y) := by
  apply h.bind
  rintro outcome _ rfl
  cases outcome with
  | accepted => exact breaksOff_pure rfl
  | rejected status diagnostic =>
    refine BreaksOff.bind (R := Eq) (breaksOff_of_calm _ ?_) fun _ _ _ => breaksOff_pure rfl
    intro e he
    cases shows_print p _ e he <;> rfl

theorem breaksOff_run [Nesting] (env : Json) (files : Files) (source : LogSource) (p : Printing) :
    BreaksOff source.failure? (ClosesAlike source.failure?)
      (run env files source.quiet p) (run env files source p) := by
  apply (source.breaksOff_resolve _).bind
  rintro _ log ⟨rfl, hFailure⟩
  apply (hFailure ▸ Job.breaksOff_load files log env).bind
  rintro job _ rfl
  apply (Client.breaksOff_create _ _ source).bind
  rintro _ c ⟨rfl, hFailure⟩
  apply (hFailure ▸ Client.breaksOff_register c job.port job.registration).mapAct
  · exact fun _ _ => breaksOff_report p
  · exact fun _ => apart_report p

theorem apart_run [Nesting] (env : Json) (files : Files) (source : LogSource) (p : Printing) :
    (run env files source p).Apart := by
  apply (source.apart_resolve _).bind
  intro log
  have hLoad : (Job.load env files log).Apart :=
    apart_of_isEntry fun e he => (Job.says_load env files log e he).isEntry
  apply hLoad.bind
  intro job
  refine ((source.apart_resolve _).bind fun _ => shows_pure _).bind fun c => ?_
  exact (c.apart_register job.port job.registration).bind fun _ => shows_pure _

/-- What a failing logger does to the loading of a job, to an operation of a client and to a run:
it is the same as under the logger that has the same levels and never fails, if that makes no entry
that fails; else it ends with the first such entry, at its time and with the failure of the logger. -/
theorem failing_logger_breaks_off [Nesting] (env : Json) (files : Files) (log : Logger) (c : Client)
    (op : Client.Operation) (source : LogSource) (p : Printing) (now : Nat) (s : Script) :
    Act.BreaksOff log.failure? Eq (Job.load env files log.quiet) (Job.load env files log) ∧
    Loop.BreaksOff c.log.failure?
      (soloAt now (c.quiet.call op) s) (soloAt now (c.call op) s) ∧
    Loop.BreaksOff source.failure?
      (soloAt now (run env files source.quiet p) s) (soloAt now (run env files source p) s) := by
  refine ⟨Job.breaksOff_load files log env, ?_, ?_⟩
  · exact breaksOff_soloAt (c.breaksOff_call op) (c.quiet.apart_call op) now s
  · exact breaksOff_soloAt (breaksOff_run env files source p)
      (apart_run env files source.quiet p) now s

end Command

end Enroll
