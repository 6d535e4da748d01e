import Enroll.Proofs.Command.Interruption
import Enroll.Proofs.Exchange.Delivery
import Enroll.Proofs.Exchange.Timer

/-!
# When an operation times out

An operation is timed out when its timer has run out, and that takes the whole part of its limit.
What is all there before is never timed out. A limit above what a timer can hold is the exception:
the timer of such an operation runs out after 1, though the limit is told as it was given.
-/

namespace Enroll

namespace Exchange

variable {β : Type}

/-- What is there in time was there without a timer. -/
theorem unhurried_of_attempt {x : Exchange β} {s : Script} {t : Nat} {r : Except Failure β}
    (hAttempt : x.attempt s = some (t, r)) (hEarly : t < x.delay) :
    x.unhurried s = some (t, r) := by
  have hWithin : (x.unhurried s).within x.delay := by
    rw [← within_attempt, hAttempt]
    exact within_of_early hEarly r
  rw [← attempt_of_within hWithin, hAttempt]

end Exchange

namespace Client

open Loop

/-- The exchange of an operation, whose value is the result. -/
def exchangeOf [Nesting] (c : Client) : Operation → Exchange Result
  | .register port r => (c.registering port r).map .outcome
  | .checkHealth port => (c.probing port).map .healthy

/-- What a timer that takes `n` makes of an operation. -/
structure NeverEarly [Nesting] (c : Client) (op : Operation) (s : Script) (now n : Nat) : Prop where
  /-- The request is given up when the timer has run out, and the call ends no sooner. -/
  aborted : ∀ e ∈ (soloAt now (c.call op) s).events, e.effect.isAborted → e.time = now + n ∧
    ∀ result a, (soloAt now (c.call op) s).results = [some ⟨result, a⟩] → now + n ≤ a
  /-- What is all there in time is not given up, unless the body does not let itself be given up. -/
  complete : ∀ t r u, s.reply = .after t (.ok r) → r.body.EndsBy u → t + u < n →
    (op.discards r.status → r.body.atOnce.giveUp ≠ .pending) →
    (∀ e ∈ (soloAt now (c.call op) s).events, e.effect.isAborted = false) ∧
      ∃ result a, (soloAt now (c.call op) s).results = [some ⟨result, a⟩] ∧ a ≤ now + (t + u)
  /-- A call that rejects before then does so with what the service failed with. -/
  early : c.log.NeverFails → ∀ f a, (soloAt now (c.call op) s).results = [some ⟨.error f, a⟩] →
    a < now + n → ∃ t e, a = now + t ∧ (c.exchangeOf op).unhurried s = some (t, .error e) ∧
      (e.isTypeError = false → f = e) ∧
      (e.isTypeError → ∃ message,
        f = .transport .connectionFailed message (c.url op.port op.path) none (some e))
  /-- One that rejects later is timed out. -/
  late : c.log.NeverFails → ∀ f a, (soloAt now (c.call op) s).results = [some ⟨.error f, a⟩] →
    now + n ≤ a → ∃ message e,
      f = .transport .timeout message (c.url op.port op.path) (some c.timeout) (some e)

/-! ## An operation by its exchange -/

theorem url_exchangeOf [Nesting] (c : Client) (op : Operation) :
    (c.exchangeOf op).request.url = c.url op.port op.path := by
  cases op <;> rfl

theorem method_exchangeOf [Nesting] (c : Client) (op : Operation) :
    ∃ method, (c.exchangeOf op).method = .ok method := by
  cases op <;> exact ⟨_, rfl⟩

theorem timeout_exchangeOf [Nesting] (c : Client) (op : Operation) :
    (c.exchangeOf op).timeout = c.timeout := by
  cases op <;> rfl

theorem Performs.results_exchangeOf [Nesting] {β : Type} {c : Client} {op : Operation}
    {x : Exchange β} {value : β → Result} {now : Nat} {s : Script} (h : Performs c op x value now s) :
    (soloAt now (c.call op) s).results =
      [((x.map value).verdict s).map fun had => ⟨had.2, now + had.1⟩] := by
  rw [h.results, Exchange.verdict_map, Course.onValue, Option.map_map]
  rfl

theorem results_exchangeOf [Nesting] {c : Client} (hLog : c.log.NeverFails) {op : Operation}
    (hPort : validPort op.port) (s : Script) (now : Nat) :
    (soloAt now (c.call op) s).results =
      [((c.exchangeOf op).verdict s).map fun had => ⟨had.2, now + had.1⟩] := by
  cases op with
  | register port r => exact (performs_register hLog hPort r now s).results_exchangeOf
  | checkHealth port => exact (performs_checkHealth hLog hPort now s).results_exchangeOf

/-- A call takes the time of an exchange and gives it up as its timer says. -/
structure TakesTime {α β : Type} (x : Exchange β) (s : Script) (now : Nat) (report : Report α) :
    Prop where
  times : report.results.map (Option.map Settled.time) =
    [(x.attempt s).map fun had => now + had.1]
  aborted : report.events.filter (fun e => e.effect.isAborted) = x.gaveUp s now

theorem takesTime_of_closing {α β γ : Type} {opening : Act (Call α)} {x : Exchange β}
    {close : Except Failure β → Act α} (hOpens : opening.result = .ok (Call.closing x close))
    (hOpening : opening.Apart) (hClose : ∀ o, (close o).Apart) (value : β → γ) (s : Script)
    (now : Nat) : TakesTime (x.map value) s now (soloAt now opening s) := by
  constructor
  · rw [(soloAt_closing hOpens now s).1, Exchange.verdict, Exchange.attempt_map, Course.onValue,
      Option.map_map, Option.map_map, List.map_singleton, Option.map_map]
    rfl
  · rw [Report.events, filter_soloAt_closing Effect.isExchanged_of_isAborted hOpens hOpening hClose,
      List.filter_cons_of_neg (by simp [Effect.isAborted]), Exchange.filter_isAborted_seen,
      Exchange.gaveUp_map]

/-- Whatever its logger does, an operation fails at once or takes the time of its exchange. -/
theorem takesTime_call [Nesting] (c : Client) {op : Operation} (hPort : validPort op.port)
    (s : Script) (now : Nat) :
    (∃ f, (soloAt now (c.call op) s).results = [some ⟨.error f, now⟩] ∧
        (soloAt now (c.call op) s).events.filter (fun e => e.effect.isAborted) = []) ∨
      TakesTime (c.exchangeOf op) s now (soloAt now (c.call op) s) := by
  have hOpening := c.apart_call op
  cases op with
  | register port r =>
    obtain ⟨-, ⟨f, hFails⟩ | hCloses⟩ := c.register_cases port r
    · have hCall : (c.call (.register port r)).result = .error f :=
        congrArg Act.result (Act.bind_of_error hFails _)
      exact .inl ⟨f, (soloAt_of_failed hCall now s).1,
        filter_soloAt_of_failed Effect.isExchanged_of_isAborted hCall hOpening now s⟩
    · have hCall : (c.call (.register port r)).result =
          .ok (Call.closing (c.registering port r) fun o => do
            pure (.outcome (← c.closeRegister port r.name (c.url port registerPath) o))) := by
        rw [call, Act.bind_of_ok hCloses, Call.mapAct_closing]
        rfl
      refine .inr (takesTime_of_closing hCall hOpening (fun o => ?_) _ s now)
      exact (Act.apart_of_isEntry (isEntry_closeRegister c port r.name _ o)).bind fun _ =>
        Act.shows_pure _
  | checkHealth port =>
    have hCall := congrArg Act.result (c.call_checkHealth hPort)
    refine .inr (takesTime_of_closing hCall hOpening (fun o => ?_) _ s now)
    exact (Act.apart_of_isEntry (isEntry_closeHealth c _ o)).bind fun _ => Act.shows_pure _

theorem TakesTime.had {α β : Type} {x : Exchange β} {s : Script} {now a : Nat}
    {report : Report α} {result : Except Failure α} (h : TakesTime x s now report)
    (hResults : report.results = [some ⟨result, a⟩]) :
    ∃ t r, x.attempt s = some (t, r) ∧ a = now + t := by
  have hTimes := h.times
  rw [hResults] at hTimes
  obtain ⟨⟨t, r⟩, hAttempt, hTime⟩ := Option.map_eq_some_iff.mp (List.cons.inj hTimes).1.symm
  exact ⟨t, r, hAttempt, hTime.symm⟩

theorem TakesTime.results {α β : Type} {x : Exchange β} {s : Script} {now t : Nat}
    {report : Report α} {r : Except Failure β} (h : TakesTime x s now report)
    (hAttempt : x.attempt s = some (t, r)) :
    ∃ result, report.results = [some ⟨result, now + t⟩] := by
  have hTimes := h.times
  rw [hAttempt] at hTimes
  obtain ⟨had, hResults, hTime⟩ := List.map_eq_singleton_iff.mp hTimes
  obtain ⟨⟨result, a⟩, rfl, rfl⟩ := Option.map_eq_some_iff.mp hTime
  exact ⟨result, hResults⟩

/-! ## In time and late -/

theorem treats_exchangeOf [Nesting] (c : Client) (op : Operation) :
    Treats op (c.exchangeOf op) := by
  intro status
  cases op with
  | register port r =>
    obtain ⟨hDiscards, value, hReact⟩ | ⟨hReads, value, hReact⟩ :=
      treats_registering c port r status
    · exact .inl ⟨hDiscards, .outcome value, congrArg (Reaction.map Result.outcome) hReact⟩
    · exact .inr
        ⟨hReads, fun t => .outcome (value t), congrArg (Reaction.map Result.outcome) hReact⟩
  | checkHealth port => exact .inl ⟨rfl, .healthy (granted status), rfl⟩

/-- What is done with a body is over by its end, unless it has to be given up and does not let
itself be. -/
theorem unhurried_of_endsBy {β : Type} {op : Operation} {x : Exchange β} (hTreats : Treats op x)
    {s : Script} {t u : Nat} {r : Response} (hReply : s.reply = .after t (.ok r))
    (hEnds : r.body.EndsBy u)
    (hGivenUp : op.discards r.status → r.body.atOnce.giveUp ≠ .pending) :
    ∃ w had, x.unhurried s = some (t + w, had) ∧ w ≤ u := by
  have hCourse : s.reply.course = some (t, .ok r) := by rw [hReply]; rfl
  simp only [Exchange.unhurried, hCourse]
  obtain ⟨hDiscards, value, hReact⟩ | ⟨-, value, hReact⟩ := hTreats r.status
  · rw [hReact, Reaction.course]
    cases hRelease : r.body.atOnce.giveUp with
    | granted => exact ⟨0, _, rfl, Nat.zero_le u⟩
    | refused f => exact ⟨0, _, rfl, Nat.zero_le u⟩
    | pending => exact absurd hRelease (hGivenUp hDiscards)
  · obtain ⟨w, read, hText, hBy⟩ := hEnds.text
    rw [hReact, Reaction.course, hText]
    exact ⟨w, _, rfl, hBy⟩

section Timer

variable {c : Client} {op : Operation} {s : Script} {now : Nat}

variable (c op) in
theorem delay_exchangeOf [Nesting] : (c.exchangeOf op).delay = timerDelay c.timeout := by
  rw [Exchange.delay, timeout_exchangeOf]

theorem attempt_of_error [Nesting] (hLog : c.log.NeverFails) (hPort : validPort op.port)
    {f : Failure} {a : Nat} (hResults : (soloAt now (c.call op) s).results = [some ⟨.error f, a⟩]) :
    ∃ t e, a = now + t ∧ (c.exchangeOf op).attempt s = some (t, .error e) ∧
      (c.exchangeOf op).Rejects ((c.exchangeOf op).delay ≤ t) e f := by
  rw [results_exchangeOf hLog hPort, Exchange.verdict] at hResults
  cases hAttempt : (c.exchangeOf op).attempt s with
  | none =>
    rw [hAttempt] at hResults
    simp at hResults
  | some had =>
    obtain ⟨t, r⟩ := had
    rw [hAttempt] at hResults
    cases r with
    | ok value => simp at hResults
    | error e =>
      simp only [Option.map_some, mapError_error, List.cons.injEq, Option.some.injEq,
        Settled.mk.injEq, Except.error.injEq, and_true] at hResults
      obtain ⟨rfl, rfl⟩ := hResults
      exact ⟨t, e, rfl, rfl, (c.exchangeOf op).rejects_classify _ e⟩

theorem neverEarly_call [Nesting] (hPort : validPort op.port) :
    NeverEarly c op s now (timerDelay c.timeout) := by
  rw [← delay_exchangeOf c op]
  constructor
  case aborted =>
    intro e he hAborted
    have hMem : e ∈ (soloAt now (c.call op) s).events.filter fun e => e.effect.isAborted :=
      List.mem_filter.mpr ⟨he, hAborted⟩
    obtain ⟨f, -, hNone⟩ | hTakes := takesTime_call c hPort s now
    · rw [hNone] at hMem
      exact absurd hMem List.not_mem_nil
    · rw [hTakes.aborted, Exchange.gaveUp] at hMem
      split at hMem
      · exact absurd hMem List.not_mem_nil
      · rename_i hWithin
        obtain rfl := List.mem_singleton.mp hMem
        refine ⟨rfl, fun result a hResults => ?_⟩
        obtain ⟨t, r, hAttempt, rfl⟩ := hTakes.had hResults
        have hLate : (c.exchangeOf op).delay ≤ t := by simpa [hAttempt, Course.within] using hWithin
        omega
  case complete =>
    intro t r u hReply hEnds hInTime hGivenUp
    obtain ⟨f, hResults, hNone⟩ | hTakes := takesTime_call c hPort s now
    · refine ⟨fun e he => ?_, _, _, hResults, by omega⟩
      simpa using List.filter_eq_nil_iff.mp hNone e he
    · obtain ⟨w, had, hUnhurried, hBy⟩ :=
        unhurried_of_endsBy (treats_exchangeOf c op) hReply hEnds hGivenUp
      have hWithin : ((c.exchangeOf op).unhurried s).within (c.exchangeOf op).delay := by
        rw [hUnhurried]
        exact Exchange.within_of_early (by omega) had
      have hNone := hTakes.aborted
      rw [Exchange.gaveUp, Exchange.within_attempt, if_pos hWithin] at hNone
      obtain ⟨result, hResults⟩ :=
        hTakes.results ((Exchange.attempt_of_within hWithin).trans hUnhurried)
      refine ⟨fun e he => ?_, result, _, hResults, by omega⟩
      simpa using List.filter_eq_nil_iff.mp hNone e he
  case early =>
    intro hLog f a hResults hEarly
    obtain ⟨t, e, rfl, hAttempt, hRejects⟩ := attempt_of_error hLog hPort hResults
    have hInTime : decide ((c.exchangeOf op).delay ≤ t) = false := decide_eq_false (by omega)
    refine ⟨t, e, rfl, Exchange.unhurried_of_attempt hAttempt (by omega), ?_, ?_⟩
    · exact fun hOther => hRejects.passedOn hInTime (Failure.isTypeError_eq_false_iff.mp hOther)
    · intro hType
      obtain ⟨method, hMethod⟩ := c.method_exchangeOf op
      obtain ⟨reason, -, hRejection⟩ :=
        hRejects.connectionFailed hInTime (Failure.isTypeError_iff.mp hType) method hMethod
      exact ⟨_, hRejection.trans (by rw [url_exchangeOf])⟩
  case late =>
    intro hLog f a hResults hLate
    obtain ⟨t, e, rfl, -, hRejects⟩ := attempt_of_error hLog hPort hResults
    obtain ⟨method, hMethod⟩ := c.method_exchangeOf op
    have hRejection := hRejects.timedOut (decide_eq_true (by omega)) method hMethod
    rw [url_exchangeOf, timeout_exchangeOf] at hRejection
    exact ⟨_, e, hRejection⟩

end Timer

/-- An operation at a valid port is timed out by the whole part of its limit and never earlier, if
a timer can hold the limit; under a greater limit it is timed out after 1. -/
theorem timed_out_by_whole_part [Nesting] {c : Client} {op : Operation} (hPort : validPort op.port)
    {p : Place} (hPlace : c.timeout.place? = some p) (hLeast : .at 1 ≤ p) (s : Script) (now : Nat) :
    ∃ n : Nat, (p ≤ .at 2147483647 → .at n ≤ p ∧ p < .at (n + 1)) ∧ (.at 2147483647 < p → n = 1) ∧
      NeverEarly c op s now n := by
  obtain ⟨hHeld, hMore⟩ := timerDelay_spec hPlace hLeast
  exact ⟨timerDelay c.timeout, hHeld, hMore, neverEarly_call hPort⟩

/-- A registration that is turned down with a body in two pieces, the end 14 after the request. -/
theorem timed_out_by_whole_part_in_time :
    let c : Client := ⟨defaultHost, 100, .console⟩
    let op : Operation := .register 4000 ⟨"alice", "k"⟩
    let items : List Item := [⟨5, .finish⟩, ⟨3, .data [0x7B, 0x7D]⟩]
    let s : Script := ⟨.after 9 (.ok ⟨404, .stream items .pending⟩), true, .aborted⟩
    validPort op.port ∧ c.timeout.place? = some (.at 100) ∧ Place.at 1 ≤ .at 100 ∧
      NeverEarly c op s 7 100 ∧
      (∀ e ∈ (soloAt 7 (c.call op) s).events, e.effect.isAborted = false) ∧
      ∃ result a, (soloAt 7 (c.call op) s).results = [some ⟨result, a⟩] ∧ a ≤ 21 := by
  intro c op items s
  have hPort : validPort op.port := by decide
  have hPlace : c.timeout.place? = some (.at 100) :=
    Number.place?_ofNat (n := 100) (by norm_num) (by norm_num)
  have hLeast : Place.at 1 ≤ .at 100 := Place.at_le_iff.mpr (by norm_num)
  obtain ⟨n, hWhole, -, hNever⟩ := timed_out_by_whole_part hPort hPlace hLeast s 7
  obtain rfl : n = 100 := by
    obtain ⟨hLow, hHigh⟩ := hWhole (Place.at_le_iff.mpr (by norm_num))
    have hLow' : n ≤ 100 := by exact_mod_cast Place.at_le_iff.mp hLow
    have hHigh' : 100 < n + 1 := by exact_mod_cast Place.at_lt_iff.mp hHigh
    omega
  have hEnds : (Body.stream items .pending).EndsBy 5 :=
    .stream (i := ⟨5, .finish⟩) List.mem_cons_self rfl (Nat.le_refl 5)
  have hReads : op.discards 404 = false := by decide
  have hComplete := hNever.complete 9 _ 5 rfl hEnds (by norm_num)
    fun hDiscards => absurd hDiscards (by simp [hReads])
  exact ⟨hPort, hPlace, hLeast, hNever, hComplete⟩

/-- A probe that is answered after 5 is timed out after 1 under a limit of `2 ^ 31`. -/
theorem timed_out_before_limit :
    let c : Client := ⟨defaultHost, 2147483648, .recorder none [] fun _ => none⟩
    let s : Script := ⟨.after 5 (.ok ⟨200, .absent⟩), true, .aborted⟩
    c.timeout.place? = some (.at 2147483648) ∧ validPort 4000 ∧
      ∃ message, (soloAt 0 (c.call (.checkHealth 4000)) s).results =
        [some ⟨.error (.transport .timeout message "http://localhost:4000/" (some 2147483648)
          (some .aborted)), 1⟩] := by
  intro c s
  refine ⟨Number.place?_ofNat (n := 2147483648) (by norm_num) (by norm_num), by decide, _, rfl⟩

end Client

end Enroll
