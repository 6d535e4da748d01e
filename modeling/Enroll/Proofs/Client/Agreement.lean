import Enroll.Proofs.Client.Limit
import Enroll.Proofs.Client.Trace

/-!
# A registration beside a probe

A registration and a probe of one service differ in what they send and in what they do with a
response that turns the registration down. As long as there is no such response both give up the
body, so they are one exchange but for the value (`Client.releasing`): they end alike, at one time,
and the service sees the same of them. A response that turns the registration down lets neither of
them succeed.
-/

namespace Enroll

namespace Client

open Loop

namespace Operation

def method : Operation → Text
  | .register _ _ => "POST"
  | .checkHealth _ => "GET"

/-- What an operation comes to where the service grants it. -/
def success : Operation → Result
  | .register _ _ => .outcome .accepted
  | .checkHealth _ => .healthy true

end Operation

/-- What an operation fails with when its exchange does, in words that name its request. -/
def raised (c : Client) (op : Operation) (code : TransportCode) (what : Text)
    (timeout : Option Number) (cause : Failure) : Failure :=
  .transport code
    ("keyreg-client:http-exchange:exchange - " ++ op.method ++ " " ++ c.url op.port op.path ++ what)
    (c.url op.port op.path) timeout (some cause)

/-- How a registration and a probe end that end alike, at one time if they end: with success, with
the failure of the exchange about each request, with the same failure of the service, or never. -/
inductive EndAlike (c : Client) (port : Number) (r : Registration) (deadline : Nat) :
    Option (Settled Result) → Option (Settled Result) → Prop where
  | granted (a : Nat) :
    EndAlike c port r deadline (some ⟨.ok (.outcome .accepted), a⟩) (some ⟨.ok (.healthy true), a⟩)
  | timedOut {a : Nat} (hLate : deadline ≤ a) (what : Text) (cause : Failure) :
    EndAlike c port r deadline
      (some ⟨.error (c.raised (.register port r) .timeout what (some c.timeout) cause), a⟩)
      (some ⟨.error (c.raised (.checkHealth port) .timeout what (some c.timeout) cause), a⟩)
  | unconnected {a : Nat} (hEarly : a < deadline) (what : Text) {cause : Failure}
    (hType : cause.isTypeError) :
    EndAlike c port r deadline
      (some ⟨.error (c.raised (.register port r) .connectionFailed what none cause), a⟩)
      (some ⟨.error (c.raised (.checkHealth port) .connectionFailed what none cause), a⟩)
  | failed {a : Nat} (hEarly : a < deadline) {f : Failure} (hOther : f.isTypeError = false) :
    EndAlike c port r deadline (some ⟨.error f, a⟩) (some ⟨.error f, a⟩)
  | unsettled : EndAlike c port r deadline none none

/-- A registration and a probe that go alike: they end alike, and after its request the service
sees the same of both. -/
structure GoAlike [Nesting] (c : Client) (port : Number) (r : Registration) (s : Script)
    (now : Nat) : Prop where
  ends : ∃ registered probed,
    (soloAt now (c.call (.register port r)) s).results = [registered] ∧
      (soloAt now (c.call (.checkHealth port)) s).results = [probed] ∧
      EndAlike c port r (now + timerDelay c.timeout) registered probed
  shows : ∃ seen : List Event, (∀ e ∈ seen, e.effect = .aborted ∨ e.effect = .cancelled) ∧
    (soloAt now (c.call (.register port r)) s).events.filter (fun e => e.effect.isExchanged) =
      ⟨now, .sent ((Operation.register port r).request c) false⟩ :: seen ∧
    (soloAt now (c.call (.checkHealth port)) s).events.filter (fun e => e.effect.isExchanged) =
      ⟨now, .sent ((Operation.checkHealth port).request c) false⟩ :: seen

/-- What is left to a registration and a probe where the service turns the registration down. -/
structure TurnedDown [Nesting] (c : Client) (port : Number) (r : Registration) (status : Nat)
    (s : Script) (now : Nat) : Prop where
  registered : ∀ result a,
    (soloAt now (c.call (.register port r)) s).results = [some ⟨.ok result, a⟩] →
      ∃ diagnostic, result = .outcome (.rejected status diagnostic)
  probed : ∀ result a,
    (soloAt now (c.call (.checkHealth port)) s).results = [some ⟨.ok result, a⟩] →
      result = .healthy false

/-! ## An operation by its exchange -/

theorem Performs.exchanged [Nesting] {β : Type} {c : Client} {op : Operation} {x : Exchange β}
    {value : β → Result} {now : Nat} {s : Script} (h : Performs c op x value now s) :
    (soloAt now (c.call op) s).events.filter (fun e => e.effect.isExchanged) =
      ⟨now, .sent x.request false⟩ :: x.seen s now := by
  obtain ⟨before, after, hEntries, hEvents⟩ := h.events
  obtain ⟨hBefore, hAfter⟩ := List.forall_mem_append.mp hEntries
  have hApart : ∀ entries : List Event, (∀ e ∈ entries, e.effect.isEntry) →
      entries.filter (fun e => e.effect.isExchanged) = [] := fun entries hAll =>
    List.filter_eq_nil_iff.mpr fun e he => by
      rw [Effect.isExchanged_of_isEntry (hAll e he)]
      exact Bool.false_ne_true
  have hExchanged : ∀ e ∈ (⟨now, .sent x.request false⟩ :: x.seen s now : List Event),
      e.effect.isExchanged :=
    List.forall_mem_cons.mpr ⟨rfl, x.isExchanged_seen s now⟩
  rw [Report.events, hEvents, List.filter_append, List.filter_append, hApart before hBefore,
    hApart after hAfter, List.filter_eq_self.mpr hExchanged, List.nil_append, List.append_nil]

theorem exchanged_call [Nesting] {c : Client} (hLog : c.log.NeverFails) {op : Operation}
    (hPort : validPort op.port) (s : Script) (now : Nat) :
    (soloAt now (c.call op) s).events.filter (fun e => e.effect.isExchanged) =
      ⟨now, .sent (op.request c) false⟩ :: (c.exchangeOf op).seen s now := by
  cases op with
  | register port r =>
    have hValid : validPort port := hPort
    rw [(performs_register hLog hValid r now s).exchanged, exchangeOf, Exchange.seen_map]
    rfl
  | checkHealth port =>
    have hValid : validPort port := hPort
    rw [(performs_checkHealth hLog hValid now s).exchanged, exchangeOf, Exchange.seen_map]
    rfl

/-- What the exchange of an operation makes of a failure. -/
theorem classify_exchangeOf [Nesting] (c : Client) (op : Operation) (ranOut : Bool) (e : Failure) :
    (c.exchangeOf op).classify ranOut e =
      if ranOut then
        c.raised op .timeout (" timed out after " ++ c.timeout.text ++ "ms") (some c.timeout) e
      else if e.isTypeError then
        c.raised op .connectionFailed (" failed: " ++ e.networkReason) none e
      else e := by
  cases op <;> rfl

/-! ## Where nothing is turned down -/

/-- The exchange that a granted registration and a probe have in common. -/
def releasing [Nesting] (c : Client) (port : Number) : Exchange Unit :=
  ⟨probeRequest (c.url port healthPath), c.timeout, fun _ => .discardBody ()⟩

/-- One that reads the body of any response. -/
def reading [Nesting] (c : Client) (port : Number) : Exchange Text :=
  ⟨probeRequest (c.url port healthPath), c.timeout, fun _ => .readBody id⟩

variable {c : Client} {s : Script}

theorem sameButValue_exchangeOf [Nesting]
    (hGranted : ∀ t r, s.response? (timerDelay c.timeout) = some (t, r) → granted r.status)
    (port : Number) (op : Operation) :
    Exchange.SameButValue (fun _ => op.success) s (c.releasing port) (c.exchangeOf op) := by
  refine ⟨c.timeout_exchangeOf op, fun t r hArrival => ?_⟩
  have hStatus := hGranted t r (Script.response?_of_arrival hArrival)
  cases op with
  | register port' reg =>
    have hReact : registerReaction r.status = .discardBody .accepted := if_pos hStatus
    exact congrArg (Reaction.map Result.outcome) hReact
  | checkHealth port' =>
    have hReact : (c.probing port').react r.status = .discardBody true :=
      congrArg Reaction.discardBody hStatus
    exact congrArg (Reaction.map Result.healthy) hReact

/-- How a granted operation settles by what its exchange comes to, and after which time. -/
def settles [Nesting] (c : Client) (op : Operation) (now : Nat) (had : Nat × Except Failure Unit) :
    Settled Result :=
  ⟨(had.2.map fun _ => op.success).mapError
    ((c.exchangeOf op).classify (timerDelay c.timeout ≤ had.1)), now + had.1⟩

theorem results_of_granted [Nesting] (hLog : c.log.NeverFails) {op : Operation}
    (hPort : validPort op.port)
    (hGranted : ∀ t r, s.response? (timerDelay c.timeout) = some (t, r) → granted r.status)
    (port : Number) (now : Nat) :
    (soloAt now (c.call op) s).results = [((c.releasing port).attempt s).map (c.settles op now)] := by
  have hSame := sameButValue_exchangeOf hGranted port op
  have hDelay : (c.exchangeOf op).delay = timerDelay c.timeout := hSame.delay
  rw [results_exchangeOf hLog hPort, Exchange.verdict, hSame.attempt, hDelay, Course.onValue,
    Option.map_map, Option.map_map]
  rfl

theorem endAlike_settles [Nesting] (c : Client) (port : Number) (r : Registration) (now : Nat)
    (had : Nat × Except Failure Unit) :
    EndAlike c port r (now + timerDelay c.timeout) (some (c.settles (.register port r) now had))
      (some (c.settles (.checkHealth port) now had)) := by
  obtain ⟨t, result⟩ := had
  cases result with
  | ok u => exact .granted (now + t)
  | error e =>
    simp only [settles, Except.map, mapError_error, classify_exchangeOf]
    by_cases hLate : timerDelay c.timeout ≤ t
    · simp only [hLate, decide_true, if_true]
      exact .timedOut (by omega) _ e
    · have hEarly : now + t < now + timerDelay c.timeout := by omega
      simp only [hLate, decide_false, Bool.false_eq_true, if_false]
      by_cases hType : e.isTypeError
      · simp only [hType, if_true]
        exact .unconnected hEarly _ hType
      · simp only [hType]
        exact .failed hEarly (Bool.eq_false_iff.mpr hType)

theorem effect_of_mem_seen_releasing [Nesting] {port : Number} {now : Nat} {e : Event}
    (h : e ∈ (c.releasing port).seen s now) : e.effect = .aborted ∨ e.effect = .cancelled := by
  have hGaveUp : e ∈ (c.releasing port).gaveUp s now → e.effect = .aborted := by
    intro he
    unfold Exchange.gaveUp at he
    split at he
    · exact absurd he List.not_mem_nil
    · obtain rfl := List.mem_singleton.mp he
      rfl
  have hTouched : e ∈ (c.releasing port).touched s now → e.effect = .cancelled := by
    intro he
    unfold Exchange.touched at he
    split at he
    · rename_i t r hArrival
      obtain ⟨effect, hEffect, rfl⟩ := List.mem_map.mp he
      change effect ∈ if r.body.opened.showsGivenUp then [Effect.cancelled] else [] at hEffect
      split at hEffect
      · exact List.mem_singleton.mp hEffect
      · exact absurd hEffect List.not_mem_nil
    · exact absurd he List.not_mem_nil
  unfold Exchange.seen at h
  split at h
  · exact (List.mem_append.mp h).symm.imp hGaveUp hTouched
  · exact (List.mem_append.mp h).imp hGaveUp hTouched

theorem goAlike_of_granted [Nesting] (hLog : c.log.NeverFails) {port : Number}
    (hPort : validPort port) (r : Registration) (now : Nat)
    (hGranted : ∀ t r, s.response? (timerDelay c.timeout) = some (t, r) → granted r.status) :
    GoAlike c port r s now := by
  let register : Operation := .register port r
  let probe : Operation := .checkHealth port
  have hRegister : validPort register.port := hPort
  have hProbe : validPort probe.port := hPort
  have hSeen := fun op => (sameButValue_exchangeOf hGranted port op).seen now
  constructor
  · refine ⟨_, _, results_of_granted hLog hRegister hGranted port now,
      results_of_granted hLog hProbe hGranted port now, ?_⟩
    cases (c.releasing port).attempt s with
    | none => exact .unsettled
    | some had => exact endAlike_settles c port r now had
  · refine ⟨(c.releasing port).seen s now, fun e he => effect_of_mem_seen_releasing he, ?_, ?_⟩
    · rw [exchanged_call hLog hRegister, hSeen]
    · rw [exchanged_call hLog hProbe, hSeen]

/-! ## Where something is turned down -/

theorem value_of_results [Nesting] {op : Operation} {β : Type} {x : Exchange β} {f : β → Result}
    (hSame : Exchange.SameButValue f s x (c.exchangeOf op)) (hLog : c.log.NeverFails)
    (hPort : validPort op.port) {now : Nat} {result : Result} {a : Nat}
    (hResults : (soloAt now (c.call op) s).results = [some ⟨.ok result, a⟩]) :
    ∃ b, result = f b := by
  rw [results_exchangeOf hLog hPort] at hResults
  obtain ⟨⟨t, found⟩, hVerdict, hSettled⟩ :=
    Option.map_eq_some_iff.mp (List.cons.inj hResults).1
  obtain rfl : found = .ok result := congrArg Settled.result hSettled
  exact hSame.value_of_verdict hVerdict

variable {t : Nat} {answer : Response} (hReply : s.reply = .after t (.ok answer))
  (hDown : granted answer.status = false) (port : Number)

include hReply hDown

theorem sameButValue_register [Nesting] (r : Registration) :
    Exchange.SameButValue (fun text => Result.outcome (.rejected answer.status (.ofText text))) s
      (c.reading port) (c.exchangeOf (.register port r)) := by
  refine ⟨rfl, fun t' answer' hArrival => ?_⟩
  obtain rfl := Script.answer_of_arrival hReply hArrival
  have hReact : registerReaction answer.status =
      .readBody fun text => .rejected answer.status (.ofText text) := by
    rw [registerReaction, hDown]
    rfl
  exact congrArg (Reaction.map Result.outcome) hReact

theorem sameButValue_checkHealth [Nesting] :
    Exchange.SameButValue (fun _ => Result.healthy false) s (c.releasing port)
      (c.exchangeOf (.checkHealth port)) := by
  refine ⟨rfl, fun t' answer' hArrival => ?_⟩
  obtain rfl := Script.answer_of_arrival hReply hArrival
  have hReact : (c.probing port).react answer.status = .discardBody false :=
    congrArg Reaction.discardBody hDown
  exact congrArg (Reaction.map Result.healthy) hReact

variable {port}

theorem turnedDown_of_reply [Nesting] (hLog : c.log.NeverFails) (hPort : validPort port)
    (r : Registration) (now : Nat) : TurnedDown c port r answer.status s now := by
  constructor
  · intro result a hResults
    obtain ⟨text, hResult⟩ :=
      value_of_results (sameButValue_register hReply hDown port r) hLog hPort hResults
    exact ⟨_, hResult⟩
  · intro result a hResults
    obtain ⟨-, hResult⟩ :=
      value_of_results (sameButValue_checkHealth hReply hDown port) hLog hPort hResults
    exact hResult

omit hReply hDown

/-! ## The law -/

/-- A registration and a probe of one service that begin at one time. If no response comes to them
that turns the registration down, they go alike. If the service makes such a response, the
registration can only be turned down with it and the probe can only find the service unhealthy. So
wherever both come to a result they say the same. -/
theorem registration_agrees_with_probe [Nesting] (hLog : c.log.NeverFails) (hPort : validPort port)
    (r : Registration) (s : Script) (now : Nat) :
    ((∀ t answer, s.response? (timerDelay c.timeout) = some (t, answer) → granted answer.status) →
      GoAlike c port r s now) ∧
    (∀ t answer, s.reply = .after t (.ok answer) → granted answer.status = false →
      TurnedDown c port r answer.status s now) ∧
    ∀ outcome healthy a b,
      (soloAt now (c.call (.register port r)) s).results = [some ⟨.ok (.outcome outcome), a⟩] →
      (soloAt now (c.call (.checkHealth port)) s).results = [some ⟨.ok (.healthy healthy), b⟩] →
      (outcome = .accepted ↔ healthy = true) := by
  refine ⟨goAlike_of_granted hLog hPort r now,
    fun t answer hReply hDown => turnedDown_of_reply hReply hDown hLog hPort r now, ?_⟩
  intro outcome healthy a b hRegistered hProbed
  by_cases hMade : ∃ t answer, s.reply = .after t (.ok answer) ∧ granted answer.status = false
  · obtain ⟨t, answer, hReply, hDown⟩ := hMade
    have hTurnedDown := turnedDown_of_reply hReply hDown hLog hPort r now
    obtain ⟨diagnostic, hRejected⟩ := hTurnedDown.registered _ a hRegistered
    have hUnhealthy := hTurnedDown.probed _ b hProbed
    cases hRejected
    cases hUnhealthy
    simp
  · have hGranted : ∀ t answer, s.response? (timerDelay c.timeout) = some (t, answer) →
        granted answer.status := by
      intro t answer hResponse
      by_contra hDown
      exact hMade ⟨t, answer, Script.reply_of_response? hResponse, Bool.eq_false_iff.mpr hDown⟩
    obtain ⟨_, _, hRegistered', hProbed', hEnds⟩ :=
      (goAlike_of_granted hLog hPort r now hGranted).ends
    obtain rfl := (List.cons.inj (hRegistered'.symm.trans hRegistered)).1
    obtain rfl := (List.cons.inj (hProbed'.symm.trans hProbed)).1
    cases hEnds
    simp

/-- A deaf service grants both when their timers have run out, and fails to give up the body.
Another one turns the registration down. -/
theorem registration_agrees_with_probe_late :
    let c : Client := ⟨defaultHost, 100, .recorder none [.debug, .error] fun _ => none⟩
    let r : Registration := ⟨"alice", "k"⟩
    let reset : Failure := .error .type "terminated" none none
    let deaf : Script := ⟨.after 250 (.ok ⟨204, .stream [] (.refused reset)⟩), false, .aborted⟩
    let full : Script := ⟨.after 3 (.ok ⟨507, .stream [⟨2, .finish⟩] .granted⟩), true, .aborted⟩
    GoAlike c 4000 r deaf 5 ∧ TurnedDown c 4000 r 507 full 5 := by
  intro c r reset deaf full
  have hLog : c.log.NeverFails := fun _ _ => rfl
  have hPort : validPort 4000 := by decide
  have hReply : full.reply = .after 3 (.ok ⟨507, .stream [⟨2, .finish⟩] .granted⟩) := rfl
  refine ⟨(registration_agrees_with_probe hLog hPort r deaf 5).1 ?_,
    (registration_agrees_with_probe hLog hPort r full 5).2.1 3 _ hReply rfl⟩
  intro t answer hResponse
  obtain rfl := (Prod.mk.inj (Option.some.inj hResponse)).2
  rfl

end Client

end Enroll
