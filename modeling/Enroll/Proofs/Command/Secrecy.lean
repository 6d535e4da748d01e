import Enroll.Proofs.Command.Run
import Enroll.Proofs.Config.Key
import Enroll.Proofs.Exchange.Hiding

/-!
# What a run keeps to itself

Two runs that differ in the key alone cannot be told apart but by the body of what is sent. Two runs
that are turned down with different bodies, which give diagnostics of one kind, cannot be told apart
but by the line that is printed. Both hold of loggers and printers that fail as of any other.
-/

namespace Enroll.Command

open Act Client Exchange Loop

/-! ## The key -/

/-- The call of a run that has a job. -/
def registration [Nesting] (c : Client) (port : Number) (r : Registration) (p : Printing) :
    Call Nat :=
  Call.closing (c.registering port r) fun o =>
    report p (c.closeRegister port r.name (c.url port registerPath) o)

inductive SameButKey [Nesting] (p : Printing) : Call Nat → Call Nat → Prop where
  | mk (c : Client) (port : Number) (name k k' : Text) :
    SameButKey p (registration c port ⟨name, k⟩ p) (registration c port ⟨name, k'⟩ p)

theorem sameButBody_registering [Nesting] (c : Client) (port : Number) (name k k' : Text) :
    (c.registering port ⟨name, k⟩).SameButBody (c.registering port ⟨name, k'⟩) := by
  constructor <;> rfl

theorem agree_register [Nesting] (c : Client) (port : Number) (name k k' : Text) (p : Printing) :
    Agree (fun call call' => SameButKey p (call.mapAct (report p)) (call'.mapAct (report p)))
      (c.register port ⟨name, k⟩) (c.register port ⟨name, k'⟩) := by
  have hSame : ∀ x : Act Unit, Agree Eq x x := fun x => .of_eq x fun _ _ => rfl
  refine (hSame _).bind fun _ _ _ => (hSame _).bind fun _ _ _ => .ok [] ?_
  rw [Call.mapAct_closing, Call.mapAct_closing]
  exact .mk c port name k k'

theorem agree_run [Nesting] {env env' : Json} {files files' : Files}
    (h : DifferInKey env files env' files') (source : LogSource) (p : Printing) :
    Agree (SameButKey p) (run env files source p) (run env' files' source p) := by
  refine (Agree.of_eq (R := Eq) (source.resolve _) fun _ _ => rfl).bind ?_
  rintro log _ rfl
  refine (Job.agree_load h log).bind ?_
  rintro _ _ ⟨port, name, k, k', host, timeout⟩
  refine (Agree.of_eq (R := Eq) (Client.create _ _ source) fun _ _ => rfl).bind ?_
  rintro c _ rfl
  exact (agree_register c port name k k' p).bind fun _ _ hCalls => .ok [] hCalls

/-- Whatever its logger does, a run fails at once or is the call of a registration. -/
theorem registration_of_run [Nesting] (env : Json) (files : Files) (source : LogSource)
    (p : Printing) :
    (∃ f, (run env files source p).result = .error f) ∨
      ∃ c port r, (run env files source p).result = .ok (registration c port r p) := by
  have hItself : DifferInKey env files env files := .held env fun _ => .inl rfl
  rcases (agree_run hItself source p).result with ⟨f, hFails, -⟩ | ⟨_, _, hOpens, -, hSame⟩
  · exact .inl ⟨f, hFails⟩
  · obtain ⟨c, port, name, k, -⟩ := hSame
    exact .inr ⟨c, port, ⟨name, k⟩, hOpens⟩

theorem callsAlike_of_sameButKey [Nesting] {p : Printing} {call call' : Call Nat}
    (h : SameButKey p call call') : CallsAlike Outcome call call' := by
  obtain ⟨c, port, name, k, k'⟩ := h
  exact .closing (sameButBody_registering c port name k k') _

/-! ## The body of the response -/

/-- Two series of events that are the same, but for a line that is printed at the end of both. -/
inductive SameButLine (p : Printing) (line line' : Text) : List Event → List Event → Prop where
  | unprinted (events : List Event) : SameButLine p line line' events events
  | printed (events : List Event) (a : Nat) :
    SameButLine p line line' (events ++ (p.print line).effects.map (Event.mk a))
      (events ++ (p.print line').effects.map (Event.mk a))

section Body

variable {p : Printing} {bytes bytes' : List UInt8} {status : Nat} {s s' : Script}

theorem report_of_kind [Nesting] {d d' : Diagnostic} (hKind : d'.kind = d.kind) (c : Client)
    (port : Number) (name url : Text) (p : Printing) (status a : Nat) :
    let act := report p (c.closeRegister port name url (.ok (.rejected status d)))
    let act' := report p (c.closeRegister port name url (.ok (.rejected status d')))
    act'.result = act.result ∧ ∀ events, SameButLine p d.line d'.line
      (events ++ act.effects.map (Event.mk a)) (events ++ act'.effects.map (Event.mk a)) := by
  intro act act'
  have hWrite : c.logOutcome port name (.rejected status d') =
      c.logOutcome port name (.rejected status d) := by
    simp only [logOutcome, hKind]
  have hClose : ∀ o, c.closeRegister port name url (.ok o) =
      ⟨(c.logOutcome port name o).effects, (c.logOutcome port name o).result.map fun _ => o⟩ :=
    fun o => map_eq _ _
  have hAct : act = report p _ := congrArg (report p) (hClose _)
  have hAct' : act' = report p _ := congrArg (report p) (hClose _)
  rw [hWrite] at hAct'
  rw [hAct, hAct']
  cases (c.logOutcome port name (.rejected status d)).result with
  | error f => exact ⟨rfl, fun events => .unprinted _⟩
  | ok =>
    simp only [Except.map, report_of_rejected]
    refine ⟨by cases p <;> rfl, fun events => ?_⟩
    rw [List.map_append, List.map_append, ← List.append_assoc, ← List.append_assoc]
    exact .printed _ a

theorem soloAt_sameButBytes [Nesting] {opening : Act (Call Nat)} {c : Client} {port : Number}
    {r : Registration} (hOpens : opening.result = .ok (registration c port r p))
    (hStatus : granted status = false) (h : SameButBytes bytes bytes' status s s')
    (hKind : (Diagnostic.ofBody bytes').kind = (Diagnostic.ofBody bytes).kind) (now : Nat) :
    (soloAt now opening s').results = (soloAt now opening s).results ∧
      SameButLine p (Diagnostic.ofBody bytes).line (Diagnostic.ofBody bytes').line
        ((soloAt now opening s).notes.map Note.event)
        ((soloAt now opening s').notes.map Note.event) := by
  have hReact : (c.registering port r).react status =
      .readBody fun text => .rejected status (.ofText text) := by
    simp [registering, registerReaction, hStatus]
  have hVerdict := h.verdict hReact
  obtain ⟨hResults, -, hEvents⟩ := soloAt_closing hOpens now s
  obtain ⟨hResults', -, hEvents'⟩ := soloAt_closing hOpens now s'
  rw [h.seen hReact] at hEvents'
  rw [hResults, hResults', hEvents, hEvents', ← List.append_assoc, ← List.append_assoc]
  generalize (c.registering port r).verdict s = v, (c.registering port r).verdict s' = v'
    at hVerdict ⊢
  cases hVerdict with
  | failed t f => exact ⟨rfl, .unprinted _⟩
  | read t =>
    obtain ⟨hResult, hLine⟩ := report_of_kind hKind c port r.name (c.url port registerPath) p status
      (now + t)
    refine ⟨?_, hLine _⟩
    exact congrArg (fun result => [some (Settled.mk result (now + t))]) hResult

end Body

/-! ## The law -/

/-- Two runs that differ in the key alone come to the same at the same time, and show the same but
for what the body of the request says. So do two runs that are turned down with different bodies of
one kind, but for the line that is printed. -/
theorem run_hides_key_and_body [Nesting] (source : LogSource) (p : Printing) (now : Nat) :
    (∀ {env env' : Json} {files files' : Files}, DifferInKey env files env' files' → ∀ s,
      let report := soloAt now (run env files source p) s
      let report' := soloAt now (run env' files' source p) s
      let events := report.notes.map Note.event
      let events' := report'.notes.map Note.event
      report'.results = report.results ∧
      events'.map Event.hidingBody = events.map Event.hidingBody ∧
      events'.filter (fun e => !e.effect.isSent) = events.filter fun e => !e.effect.isSent) ∧
    ∀ (env : Json) (files : Files) {bytes bytes' : List UInt8} {status : Nat} {s s' : Script},
      granted status = false → SameButBytes bytes bytes' status s s' →
      (Diagnostic.ofBody bytes').kind = (Diagnostic.ofBody bytes).kind →
      let report := soloAt now (run env files source p) s
      let report' := soloAt now (run env files source p) s'
      report'.results = report.results ∧
      SameButLine p (Diagnostic.ofBody bytes).line (Diagnostic.ofBody bytes').line
        (report.notes.map Note.event) (report'.notes.map Note.event) := by
  constructor
  · intro env env' files files' hDiffer s
    have hAlike := (agree_run hDiffer source p).mono fun _ _ => callsAlike_of_sameButKey
    obtain ⟨hResults, hEvents⟩ := soloAt_hidingBody hAlike now s
    refine ⟨hResults, hEvents, ?_⟩
    rw [← filter_map_hidingBody, hEvents, filter_map_hidingBody]
  · intro env files bytes bytes' status s s' hStatus hBytes hKind
    rcases registration_of_run env files source p with ⟨f, hFails⟩ | ⟨c, port, r, hOpens⟩
    · obtain ⟨hResults, hEvents⟩ := soloAt_of_failed hFails now s
      obtain ⟨hResults', hEvents'⟩ := soloAt_of_failed hFails now s'
      exact ⟨hResults'.trans hResults.symm, hEvents ▸ hEvents' ▸ .unprinted _⟩
    · exact soloAt_sameButBytes hOpens hStatus hBytes hKind now

/-- A key that is taken from its file, and two bodies of one letter. -/
theorem run_hides_key_and_body_of_file :
    let env : Json := .object
      [("KEYREG_PORT", .string "4000"), ("USER", .string "alice"), ("KEYREG_KEY_FILE", .string "k")]
    let holding (key : Text) : Files := fun path =>
      if path = "k" then .ok (.file (Utf8.encode key)) else .error .missing
    let source : LogSource := .lines service (some .debug)
    let saying (bytes : List UInt8) : Script :=
      ⟨.after 3 (.ok ⟨500, .whole bytes⟩), true, .aborted⟩
    let report (key : Text) (bytes : List UInt8) :=
      soloAt 2 (run env (holding key) source .captured) (saying bytes)
    let events (key : Text) (bytes : List UInt8) := (report key bytes).notes.map Note.event
    (report "secret" [0x6E]).results = [some ⟨.ok 0, 5⟩] ∧
      (events "other" [0x6E]).map Event.hidingBody = (events "secret" [0x6E]).map Event.hidingBody ∧
      SameButLine .captured "n" "y" (events "secret" [0x6E]) (events "secret" [0x79]) := by
  intro env holding source saying report events
  obtain ⟨hKey, hBody⟩ := run_hides_key_and_body source .captured 2
  have hHeld : Rewritten (holding "secret") (holding "other") := by
    intro path
    by_cases hPath : path = "k"
    · refine .inr ⟨Utf8.encode "secret", Utf8.encode "other", ?_, ?_, by decide, by decide⟩
      · exact if_pos hPath
      · exact if_pos hPath
    · exact .inl ((if_neg hPath).trans (if_neg hPath).symm)
  have hStatus : granted 500 = false := by decide
  have hBytes : Exchange.SameButBytes [0x6E] [0x79] 500 (saying [0x6E]) (saying [0x79]) :=
    .mk 3 (.whole _) (.whole _) (by simp) true .aborted
  have hKind : (Diagnostic.ofBody [0x79]).kind = (Diagnostic.ofBody [0x6E]).kind := rfl
  refine ⟨rfl, (hKey (.held env hHeld) (saying [0x6E])).2.1, ?_⟩
  exact (hBody env (holding "secret") hStatus hBytes hKind).2

end Enroll.Command
