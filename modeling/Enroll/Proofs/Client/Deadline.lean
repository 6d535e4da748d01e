import Enroll.Proofs.Client.Operations

/-!
# The deadline of an operation

An operation whose service takes notice when the request is given up is settled when its timer runs
out, if not before. One that is settled before is never given up, and one that is not is a timeout.
-/

namespace Enroll

theorem Course.cutAt_cases {γ : Type} (d : Nat) (v : γ) (c : Course γ) :
    ∃ t w, Course.cutAt d v c = some (t, w) ∧ (t < d ∨ t = d ∧ w = v) := by
  cases hWithin : Course.within d c with
  | true =>
    cases c with
    | none => simp [Course.within] at hWithin
    | some had =>
      have hEarly : had.1 < d := by simpa [Course.within] using hWithin
      exact ⟨had.1, had.2, Course.cutAt_of_within hWithin, .inl hEarly⟩
  | false => exact ⟨d, v, Course.cutAt_of_late hWithin, .inr ⟨rfl, rfl⟩⟩

/-- Where all that takes its time heeds the timer, something is had by the time it runs out, and
at that time it is a failure. -/
theorem Exchange.attempt_of_heeds {β : Type} {x : Exchange β}
    (hReacts : ∀ status, (x.react status).heeds) {s : Script} (hScript : s.heedsAbort) :
    ∃ t r, x.attempt s = some (t, r) ∧ (t < x.delay ∨ t = x.delay ∧ ∃ e, r = .error e) := by
  obtain ⟨t, answer, hCut, hTime⟩ :=
    Course.cutAt_cases x.delay (.error s.onAbort) s.reply.course
  have hArrival : s.arrival x.delay = some (t, answer) := by
    rw [Script.arrival, if_pos hScript, hCut]
  cases answer with
  | error f =>
    refine ⟨t, .error f, by simp [attempt, hArrival], ?_⟩
    rcases hTime with hEarly | ⟨rfl, -⟩
    · exact .inl hEarly
    · exact .inr ⟨rfl, f, rfl⟩
  | ok r =>
    obtain ⟨t', r', hReacted, hTime'⟩ := Course.cutAt_cases x.delay (.error .aborted)
      (Course.later t ((x.react r.status).course r.body))
    refine ⟨t', r', ?_, ?_⟩
    · simp [attempt, hArrival, reacted, hScript, hReacts, hReacted]
    · rcases hTime' with hEarly | ⟨rfl, rfl⟩
      · exact .inl hEarly
      · exact .inr ⟨rfl, _, rfl⟩

namespace Client

open Loop

theorem isAborted_of_isEntry {e : Effect} (h : e.isEntry) : e.isAborted = false := by
  cases e <;> simp_all [Effect.isEntry, Effect.isAborted]

theorem Performs.not_aborted [Nesting] {β : Type} {c : Client} {op : Operation} {x : Exchange β}
    {value : β → Result} {now : Nat} {s : Script} (h : Performs c op x value now s)
    (hWithin : (x.attempt s).within x.delay) :
    ∀ n ∈ (soloAt now (c.call op) s).notes, n.event.effect.isAborted = false := by
  obtain ⟨before, after, hEntries, hEvents⟩ := h.events
  have hGaveUp : x.gaveUp s now = [] := if_pos hWithin
  have hSeen := x.filter_isAborted_seen s now
  rw [hGaveUp, List.filter_eq_nil_iff] at hSeen
  intro n hn
  have hMem : n.event ∈ before ++ (⟨now, .sent x.request false⟩ :: x.seen s now) ++ after := by
    rw [← hEvents]
    exact List.mem_map_of_mem hn
  rcases List.mem_append.mp hMem with hMem | hMem
  · rcases List.mem_append.mp hMem with hMem | hMem
    · exact isAborted_of_isEntry (hEntries _ (List.mem_append_left _ hMem))
    · rcases List.mem_cons.mp hMem with hSent | hMem
      · rw [hSent]
        rfl
      · simpa using hSeen _ hMem
  · exact isAborted_of_isEntry (hEntries _ (List.mem_append_right _ hMem))

/-- What the law says of an operation whose exchange has the timer and the url of the client. -/
def MeetsDeadline [Nesting] (c : Client) (op : Operation) (s : Script) (now : Nat) : Prop :=
  let report := soloAt now (c.call op) s
  let deadline := now + timerDelay c.timeout
  report.pending = 0 ∧
    ∃ result a, report.results = [some ⟨result, a⟩] ∧ a ≤ deadline ∧
      (a < deadline →
        (∀ n ∈ report.notes, n.event.effect.isAborted = false) ∧
        ∀ more l, Moves ((startingAt now).perform (.single (c.call op) s)).1 more l →
          ∀ n ∈ more, n.event.effect.isAborted = false) ∧
      (a = deadline → ∃ message cause,
        result = .error (.transport .timeout message (c.url op.port op.path) (some c.timeout)
          (some cause)))

theorem Performs.meetsDeadline [Nesting] {β : Type} {c : Client} {op : Operation} {x : Exchange β}
    {value : β → Result} {now : Nat} {s : Script} (h : Performs c op x value now s)
    (hReacts : ∀ status, (x.react status).heeds) (hScript : s.heedsAbort)
    (hTimeout : x.timeout = c.timeout) (hUrl : x.request.url = c.url op.port op.path)
    {method : Text} (hMethod : x.method = .ok method) : MeetsDeadline c op s now := by
  obtain ⟨t, r, hAttempt, hTime⟩ := Exchange.attempt_of_heeds hReacts hScript
  have hDelay : x.delay = timerDelay c.timeout := by rw [Exchange.delay, hTimeout]
  have hResults := h.results
  rw [Exchange.verdict, hAttempt, Option.map_some, Option.map_some] at hResults
  refine ⟨h.pending, _, now + t, hResults, ?_, ?_, ?_⟩
  · rw [← hDelay]
    omega
  · intro hBefore
    have hEarly : t < x.delay := by omega
    have hWithin : (x.attempt s).within x.delay := by
      rw [hAttempt]
      simpa [Course.within] using hEarly
    refine ⟨h.not_aborted hWithin, fun more l hMoves n hn => ?_⟩
    rw [silent_after_solo hMoves] at hn
    simp at hn
  · intro hAt
    obtain ⟨rfl, e, rfl⟩ : t = x.delay ∧ ∃ e, r = .error e := by
      rcases hTime with hEarly | hLate
      · omega
      · exact hLate
    have hRejects := (x.rejects_classify (x.delay ≤ x.delay) e).timedOut (by simp) method hMethod
    exact ⟨_, e, by rw [← hTimeout, ← hUrl]; exact congrArg Except.error hRejects⟩

/-- A register or checkHealth call at a valid port keeps its deadline. -/
theorem operation_meets_deadline [Nesting] {c : Client} (hLog : c.log.NeverFails) {op : Operation}
    (hPort : validPort op.port) {s : Script} (hScript : s.heedsAbort) (now : Nat) :
    MeetsDeadline c op s now := by
  cases op with
  | register port r =>
    have hMethod : (c.registering port r).method = .ok "POST" := rfl
    apply (performs_register hLog hPort r now s).meetsDeadline _ hScript rfl rfl hMethod
    intro status
    by_cases hGranted : granted status <;>
      simp [registering, registerReaction, hGranted, Reaction.heeds]
  | checkHealth port =>
    have hMethod : (c.probing port).method = .ok "GET" := rfl
    exact (performs_checkHealth hLog hPort now s).meetsDeadline (fun _ => rfl) hScript rfl rfl
      hMethod

/-- A probe that is never answered is a timeout when its limit of 100 is over. -/
theorem operation_meets_deadline_unanswered :
    let c : Client := ⟨defaultHost, 100, .console⟩
    let report := soloAt 7 (c.call (.checkHealth 80)) ⟨.never, true, .aborted⟩
    report.pending = 0 ∧ ∃ message cause, report.results =
      [some ⟨.error (.transport .timeout message "http://localhost:80/" (some 100) (some cause)),
        107⟩] := by
  intro c report
  let op : Operation := .checkHealth 80
  let s : Script := ⟨.never, true, .aborted⟩
  have hLog : c.log.NeverFails := trivial
  have hPort : validPort op.port := by decide
  have hScript : s.heedsAbort := rfl
  obtain ⟨hPending, result, a, hEnds, -, -, hAt⟩ := operation_meets_deadline hLog hPort hScript 7
  have hTime : report.results.map (Option.map Settled.time) = [some 107] := rfl
  have hResults : report.results = [some ⟨result, a⟩] := hEnds
  obtain rfl : a = 107 := by simpa [hResults] using hTime
  obtain ⟨message, cause, rfl⟩ := hAt rfl
  exact ⟨hPending, message, cause, hResults⟩

end Client

end Enroll
