import Enroll.Proofs.Client.Status

/-!
# The trace of an operation

All that an operation shows, from its first entry in the log to its last, with the request and what
is done with its response between. The shape of a trace is said here by itself (`Trace`): which
request is sent, when the body is touched and how, and which entry goes with which result.
-/

namespace Enroll

/-- The response that comes to a request which is given up at a time. -/
def Script.response? (s : Script) (d : Nat) : Option (Nat × Response) :=
  match s.reply with
  | .after t (.ok r) => if t < d || !s.heedsAbort then some (t, r) else none
  | _ => none

theorem Script.arrival_eq (s : Script) (d : Nat) :
    (∃ t r, s.response? d = some (t, r) ∧ s.arrival d = some (t, .ok r)) ∨
      s.response? d = none ∧ ∀ t r, s.arrival d ≠ some (t, .ok r) := by
  have hFailed : ∀ c : Course Answer, (∀ t r, c ≠ some (t, .ok r)) → ∀ f t r,
      (if s.heedsAbort then c.cutAt d (.error f) else c) ≠ some (t, .ok r) := by
    intro c hNone f t r
    unfold Course.cutAt
    split
    · split
      · exact hNone t r
      · simp
    · exact hNone t r
  unfold arrival response?
  cases hReply : s.reply with
  | refused f => exact .inr ⟨rfl, hFailed _ (by simp [Reply.course]) _⟩
  | never => exact .inr ⟨rfl, hFailed _ (by simp [Reply.course]) _⟩
  | after t answer =>
    cases answer with
    | error f => exact .inr ⟨rfl, hFailed _ (by simp [Reply.course]) _⟩
    | ok r =>
      by_cases hEarly : t < d
      · refine .inl ⟨t, r, by simp [hEarly], ?_⟩
        have hWithin : Course.within d (some (t, (.ok r : Answer))) := by
          simpa [Course.within] using hEarly
        simp only [Reply.course, Course.cutAt_of_within hWithin, ite_self]
      · cases hScript : s.heedsAbort with
        | false => exact .inl ⟨t, r, by simp, rfl⟩
        | true =>
          have hLate : Course.within d (some (t, (.ok r : Answer))) = false := by
            simpa [Course.within] using hEarly
          refine .inr ⟨by simp [hEarly], ?_⟩
          simp [Reply.course, Course.cutAt_of_late hLate]

theorem Script.response?_of_arrival {s : Script} {d t : Nat} {r : Response}
    (h : s.arrival d = some (t, .ok r)) : s.response? d = some (t, r) := by
  rcases s.arrival_eq d with ⟨t', r', hResponse, hArrival⟩ | ⟨-, hNone⟩
  · obtain ⟨rfl, hAnswer⟩ := Prod.mk.inj (Option.some.inj (hArrival.symm.trans h))
    obtain rfl := Except.ok.inj hAnswer
    exact hResponse
  · exact absurd h (hNone t r)

theorem Script.reply_of_response? {s : Script} {d t : Nat} {r : Response}
    (h : s.response? d = some (t, r)) : s.reply = .after t (.ok r) := by
  unfold response? at h
  split at h
  · rename_i t' r' hReply
    split at h
    · obtain ⟨rfl, rfl⟩ := Prod.mk.inj (Option.some.inj h)
      exact hReply
    · exact absurd h (by simp)
  · exact absurd h (by simp)

theorem Script.answer_of_arrival {s : Script} {d t t' : Nat} {answer r : Response}
    (hReply : s.reply = .after t (.ok answer)) (h : s.arrival d = some (t', .ok r)) :
    answer = r := by
  have hMade := reply_of_response? (response?_of_arrival h)
  rw [hReply] at hMade
  exact Except.ok.inj (Reply.after.inj hMade).2

namespace Client

open Loop

namespace Operation

def name : Operation → String
  | .register _ _ => "register"
  | .checkHealth _ => "checkHealth"

/-- The request of an operation, as the service is to see it. -/
def request (c : Client) : Operation → Request
  | .register port r =>
    ⟨"http://" ++ c.host ++ ":" ++ port.text ++ "/api/register",
      [("method", .string "POST"),
        ("headers", .object [("Content-Type", .string "application/json")]),
        ("body", .string (Json.object [("name", .string r.name), ("key", .string r.key)]).text)]⟩
  | .checkHealth port =>
    ⟨"http://" ++ c.host ++ ":" ++ port.text ++ "/", [("method", .string "GET")]⟩

end Operation

/-! ## The trace -/

/-- What shows of the body of the response: it is read once or cancelled once, or left alone. -/
inductive Touches (op : Operation) (s : Script) (d now : Nat) : List Event → Prop where
  | unanswered (hNone : s.response? d = none) : Touches op s d now []
  | unseen {t : Nat} {r : Response} (hSome : s.response? d = some (t, r))
      (hBody : r.body = .silent ∨ op.discards r.status ∧ r.body = .absent) :
    Touches op s d now []
  | read {t : Nat} {r : Response} (hSome : s.response? d = some (t, r))
      (hStatus : op.discards r.status = false) (hBody : r.body ≠ .silent) :
    Touches op s d now [⟨now + t, .read⟩]
  | cancelled {t : Nat} {r : Response} (hSome : s.response? d = some (t, r))
      (hStatus : op.discards r.status) (hBody : r.body ≠ .absent ∧ r.body ≠ .silent) :
    Touches op s d now [⟨now + t, .cancelled⟩]

/-- What shows after the request: the body is touched, and the request is given up at most once. -/
inductive Follows (op : Operation) (s : Script) (d now : Nat) : List Event → Prop where
  | kept {touched : List Event} (hTouched : Touches op s d now touched) :
    Follows op s d now touched
  | abortedAfter {touched : List Event} (hTouched : Touches op s d now touched) :
    Follows op s d now (touched ++ [⟨now + d, .aborted⟩])
  | abortedBefore {touched : List Event} (hTouched : Touches op s d now touched) :
    Follows op s d now (⟨now + d, .aborted⟩ :: touched)

def shown [Nesting] (c : Client) (time : Nat) (entries : List LogEntry) : List Event :=
  (entries.flatMap c.log.shows).map (Event.mk time)

inductive Trace [Nesting] (c : Client) (op : Operation) (s : Script) (now : Nat) :
    Option (Settled Result) → List Event → Prop where
  | settled {result : Except Failure Result} {a : Nat} {middle : List Event}
      {closing : List LogEntry} (hMiddle : Follows op s (timerDelay c.timeout) now middle)
      (hClosing : Closes c op result closing) :
    Trace c op s now (some ⟨result, a⟩)
      (c.shown now (c.opens op) ++ ⟨now, .sent (op.request c) false⟩ :: middle ++
        c.shown a closing)
  | unsettled {middle : List Event} (hMiddle : Follows op s (timerDelay c.timeout) now middle) :
    Trace c op s now none
      (c.shown now (c.opens op) ++ ⟨now, .sent (op.request c) false⟩ :: middle)

/-! ## The body -/

/-- An exchange that does with the body what the operation does. -/
def Treats {β : Type} (op : Operation) (x : Exchange β) : Prop :=
  ∀ status, (op.discards status ∧ ∃ value, x.react status = .discardBody value) ∨
    (op.discards status = false ∧ ∃ value, x.react status = .readBody value)

theorem touches_of_treats {β : Type} {op : Operation} {x : Exchange β} (hTreats : Treats op x)
    (s : Script) (now : Nat) : Touches op s x.delay now (x.touched s now) := by
  rcases s.arrival_eq x.delay with ⟨t, r, hResponse, hArrival⟩ | ⟨hResponse, hArrival⟩
  · have hTouched : x.touched s now =
        ((x.react r.status).touch r.body).map (Event.mk (now + t)) := by
      simp only [Exchange.touched, hArrival]
    rw [hTouched]
    rcases hTreats r.status with ⟨hStatus, value, hReact⟩ | ⟨hStatus, value, hReact⟩
    · rw [hReact]
      cases hBody : r.body with
      | absent => exact .unseen hResponse (.inr ⟨hStatus, hBody⟩)
      | silent => exact .unseen hResponse (.inl hBody)
      | _ => exact .cancelled hResponse hStatus (by simp [hBody])
    · rw [hReact]
      cases hBody : r.body with
      | silent => exact .unseen hResponse (.inl hBody)
      | _ => exact .read hResponse hStatus (by simp [hBody])
  · have hTouched : x.touched s now = [] := by
      unfold Exchange.touched
      split
      · rename_i t r hOk
        exact absurd hOk (hArrival t r)
      · rfl
    rw [hTouched]
    exact .unanswered hResponse

theorem follows_of_treats {β : Type} {op : Operation} {x : Exchange β} (hTreats : Treats op x)
    (s : Script) (now : Nat) : Follows op s x.delay now (x.seen s now) := by
  have hTouches := touches_of_treats hTreats s now
  unfold Exchange.seen Exchange.gaveUp
  split <;> split
  · rw [List.append_nil]
    exact .kept hTouches
  · exact .abortedAfter hTouches
  · exact .kept hTouches
  · exact .abortedBefore hTouches

theorem treats_registering [Nesting] (c : Client) (port : Number) (r : Registration) :
    Treats (.register port r) (c.registering port r) := by
  intro status
  cases hStatus : granted status with
  | true => exact .inl ⟨hStatus, .accepted, if_pos hStatus⟩
  | false =>
    refine .inr ⟨hStatus, fun t => .rejected status (.ofText t), ?_⟩
    simp [registering, registerReaction, hStatus]

theorem treats_probing [Nesting] (c : Client) (port : Number) :
    Treats (.checkHealth port) (c.probing port) :=
  fun status => .inl ⟨rfl, granted status, rfl⟩

/-! ## An operation -/

theorem trace_of_call [Nesting] {β : Type} {c : Client} {op : Operation} {x : Exchange β}
    {close : Except Failure β → Act Result} (value : β → Result)
    (hCall : (c.call op).result = .ok (Call.closing x close))
    (hOpens : (c.call op).effects = (c.opens op).flatMap c.log.shows)
    (hRequest : x.request = op.request c) (hTimeout : x.timeout = c.timeout)
    (hTreats : Treats op x)
    (hCloses : ∀ r, ∃ closing, Closes c op (r.map value) closing ∧
      close r = ⟨closing.flatMap c.log.shows, r.map value⟩) (now : Nat) (s : Script) :
    ∃ settled, (soloAt now (c.call op) s).results = [settled] ∧
      Trace c op s now settled ((soloAt now (c.call op) s).notes.map Note.event) := by
  obtain ⟨hResults, -, hEvents⟩ := soloAt_closing hCall now s
  have hFollows := follows_of_treats hTreats s now
  rw [Exchange.delay, hTimeout] at hFollows
  refine ⟨_, hResults, ?_⟩
  rw [hEvents, hOpens, hRequest]
  cases x.verdict s with
  | none =>
    have hTrace := Trace.unsettled hFollows (c := c)
    simpa [closed, Course.later, shown] using hTrace
  | some had =>
    obtain ⟨t, r⟩ := had
    obtain ⟨closing, hClosing, hClose⟩ := hCloses r
    have hTrace := Trace.settled (a := now + t) hFollows hClosing
    simpa [closed, Course.later, shown, hClose] using hTrace

theorem trace_register [Nesting] {c : Client} (hLog : c.log.NeverFails) {port : Number}
    (hPort : validPort port) (r : Registration) (now : Nat) (s : Script) :
    ∃ settled, (soloAt now (c.call (.register port r)) s).results = [settled] ∧
      Trace c (.register port r) s now settled
        ((soloAt now (c.call (.register port r)) s).notes.map Note.event) := by
  have hCall := call_register hLog hPort r
  apply trace_of_call (x := c.registering port r) Result.outcome
  · rw [hCall]
  · rw [hCall, register_of_valid hLog hPort]
    exact (List.flatMap_singleton _ _).symm
  · rfl
  · rfl
  · exact treats_registering c port r
  · intro o
    obtain ⟨closing, hClosing, hClose⟩ := closes_register hLog port r o
    refine ⟨closing, hClosing, ?_⟩
    rw [Act.map_eq, hClose]

theorem trace_checkHealth [Nesting] {c : Client} (hLog : c.log.NeverFails) {port : Number}
    (hPort : validPort port) (now : Nat) (s : Script) :
    ∃ settled, (soloAt now (c.call (.checkHealth port)) s).results = [settled] ∧
      Trace c (.checkHealth port) s now settled
        ((soloAt now (c.call (.checkHealth port)) s).notes.map Note.event) := by
  have hCall := c.call_checkHealth hPort
  apply trace_of_call (x := c.probing port) Result.healthy
  · rw [hCall]
  · rw [hCall]
    rfl
  · rfl
  · rfl
  · exact treats_probing c port
  · intro o
    obtain ⟨closing, hClosing, hClose⟩ := closes_checkHealth hLog port o
    refine ⟨closing, hClosing, ?_⟩
    rw [Act.map_eq, hClose]

theorem checkPort_of_invalid {port : Number} (hPort : validPort port = false)
    (operation : String) : checkPort operation port = .fail (.invalidPort operation port) := by
  rw [checkPort, hPort]
  rfl

/-- A port that no service can have is refused before anything happens. -/
theorem call_of_invalid [Nesting] (c : Client) {op : Operation}
    (hPort : validPort op.port = false) :
    c.call op = .fail (.invalidPort op.name op.port) := by
  cases op with
  | register port r =>
    have hRefused : validPort port = false := hPort
    have hCheck := checkPort_of_invalid hRefused "register"
    rw [call, register, hCheck]
    rfl
  | checkHealth port =>
    have hRefused : validPort port = false := hPort
    have hCheck := checkPort_of_invalid hRefused "checkHealth"
    rw [call, checkHealth, hCheck]
    rfl

/-- An operation at a port that no service can have fails and shows nothing. Any other leaves its
trace, whatever the service does, with each entry once where the logger has its level. Once it has
settled, or waits for what will not come, nothing shows of it any more. -/
theorem operation_leaves_trace [Nesting] {c : Client} (hLog : c.log.NeverFails) (op : Operation)
    (s : Script) (now : Nat) :
    let report := soloAt now (c.call op) s
    (validPort op.port = false →
      report.results = [some ⟨.error (.invalidPort op.name op.port), now⟩] ∧ report.notes = []) ∧
    (validPort op.port → ∃ settled, report.results = [settled] ∧
      Trace c op s now settled (report.notes.map Note.event)) ∧
    (∀ e, (∀ effect ∈ c.log.shows e, effect.isEntry) ∧
      (c.log.shows e).length = if c.log.has e.level then 1 else 0) ∧
    ∀ more l, Moves ((startingAt now).perform (.single (c.call op) s)).1 more l → more = [] := by
  intro report
  refine ⟨?_, ?_, ?_, fun more l hMoves => silent_after_solo hMoves⟩
  · intro hPort
    have hFails : (c.call op).result = .error (.invalidPort op.name op.port) := by
      rw [call_of_invalid c hPort]
      rfl
    obtain ⟨hResults, hEvents⟩ := soloAt_of_failed hFails now s
    have hNothing : (c.call op).effects = [] := by
      rw [call_of_invalid c hPort]
      rfl
    rw [hNothing, List.map_nil] at hEvents
    exact ⟨hResults, List.map_eq_nil_iff.mp hEvents⟩
  · intro hPort
    cases op with
    | register port r => exact trace_register hLog hPort r now s
    | checkHealth port => exact trace_checkHealth hLog hPort now s
  · intro e
    exact ⟨c.log.isEntry_shows e, c.log.length_shows e⟩

/-- A registration whose service is deaf and never ends its answer. -/
theorem operation_leaves_trace_unended :
    let c : Client := ⟨defaultHost, 100, .recorder none [.debug, .error] fun _ => none⟩
    let op : Operation := .register 4000 ⟨"alice", "k"⟩
    let s : Script :=
      ⟨.after 250 (.ok ⟨500, .stream [⟨7, .data [0x21]⟩] .pending⟩), false, .aborted⟩
    ∃ settled, (soloAt 5 (c.call op) s).results = [settled] ∧
      Trace c op s 5 settled ((soloAt 5 (c.call op) s).notes.map Note.event) := by
  intro c op s
  have hLog : c.log.NeverFails := fun _ _ => rfl
  have hPort : validPort op.port := by decide
  exact (operation_leaves_trace hLog op s 5).2.1 hPort

end Client

end Enroll
