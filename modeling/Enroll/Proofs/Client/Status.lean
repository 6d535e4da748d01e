import Enroll.Proofs.Client.Operations

/-!
# A status that has no use for the body

A granted registration and every probe give up the body of the response, and have their result once
it is released. So it is not the status alone that decides: the operation has the result of the
status exactly if the body is released, fails with what the release fails with, and waits for it
until the timer runs out.
-/

namespace Enroll

/-- What is had of an exchange that gives up the body of a response in time. -/
theorem Exchange.attempt_of_discarded {β : Type} {x : Exchange β} {s : Script} {t : Nat}
    {r : Response} {value : β} (hReply : s.reply = .after t (.ok r)) (hTime : t < x.delay)
    (hReact : x.react r.status = .discardBody value) :
    x.attempt s =
      match r.body.atOnce.giveUp with
      | .granted => some (t, .ok value)
      | .refused f => some (t, .error f)
      | .pending => if s.heedsAbort then some (x.delay, .error .aborted) else none := by
  have hCourse : s.reply.course = some (t, .ok r) := by rw [hReply]; rfl
  have hArrival := arrival_of_early hCourse hTime
  have hEarly : ∀ result : Except Failure β, Course.within x.delay (some (t, result)) := by
    intro result
    simpa [Course.within] using hTime
  have hAttempt : x.attempt s = x.reacted s t r := by simp [attempt, hArrival]
  rw [hAttempt, reacted, hReact]
  simp only [Reaction.course, Reaction.heeds, Bool.and_true]
  cases hRelease : r.body.atOnce.giveUp with
  | granted =>
    have hHad : Course.later t (Release.granted.course value) = some (t, .ok value) := rfl
    rw [hHad, Course.cutAt_of_within (hEarly _), ite_self]
  | refused f =>
    have hHad : Course.later t ((Release.refused f).course value) = some (t, .error f) := rfl
    rw [hHad, Course.cutAt_of_within (hEarly _), ite_self]
  | pending => rfl

namespace Client

open Loop

/-- Whether an operation gives up the body of a response with this status. -/
def Operation.discards : Operation → (status : Nat) → Bool
  | .register _ _, status => granted status
  | .checkHealth _, _ => true

/-- What an operation finds by the status alone. -/
def Operation.found : Operation → (status : Nat) → Result
  | .register _ _, _ => .outcome .accepted
  | .checkHealth _, status => .healthy (granted status)

/-- What the release of the body makes of an operation that is answered after a time. -/
structure FollowsRelease [Nesting] (c : Client) (op : Operation) (s : Script) (now t : Nat)
    (found : Result) (release : Release) : Prop where
  found_iff : (∃ a, (soloAt now (c.call op) s).results = [some ⟨.ok found, a⟩]) ↔
    release = .granted
  granted : release = .granted →
    (soloAt now (c.call op) s).results = [some ⟨.ok found, now + t⟩]
  refused : ∀ f, release = .refused f → ∃ rejection,
    (soloAt now (c.call op) s).results = [some ⟨.error rejection, now + t⟩] ∧
      (f.isTypeError = false → rejection = f) ∧
      (f.isTypeError → ∃ message,
        rejection = .transport .connectionFailed message (c.url op.port op.path) none (some f))
  heeded : release = .pending → s.heedsAbort → ∃ message,
    (soloAt now (c.call op) s).results =
      [some ⟨.error (.transport .timeout message (c.url op.port op.path) (some c.timeout)
        (some .aborted)), now + timerDelay c.timeout⟩]
  deaf : release = .pending → s.heedsAbort = false →
    (soloAt now (c.call op) s).results = [none]

theorem Performs.followsRelease [Nesting] {β : Type} {c : Client} {op : Operation} {x : Exchange β}
    {value : β → Result} {now t : Nat} {s : Script} (h : Performs c op x value now s)
    (hTimeout : x.timeout = c.timeout) (hUrl : x.request.url = c.url op.port op.path)
    {method : Text} (hMethod : x.method = .ok method)
    {r : Response} {b : β} (hReply : s.reply = .after t (.ok r)) (hTime : t < timerDelay c.timeout)
    (hReact : x.react r.status = .discardBody b) :
    FollowsRelease c op s now t (value b) r.body.atOnce.giveUp := by
  have hDelay : x.delay = timerDelay c.timeout := by rw [Exchange.delay, hTimeout]
  have hAttempt := Exchange.attempt_of_discarded hReply (hDelay ▸ hTime) hReact
  have hResults := h.results
  have hEarly : ¬ x.delay ≤ t := by omega
  rw [Exchange.verdict, hAttempt] at hResults
  cases hRelease : r.body.atOnce.giveUp with
  | granted =>
    rw [hRelease] at hResults
    have hFound : (soloAt now (c.call op) s).results = [some ⟨.ok (value b), now + t⟩] := hResults
    exact ⟨⟨fun _ => rfl, fun _ => ⟨_, hFound⟩⟩, fun _ => hFound, by simp, by simp, by simp⟩
  | refused f =>
    rw [hRelease] at hResults
    have hRejects := x.rejects_classify (x.delay ≤ t) f
    have hInTime : decide (x.delay ≤ t) = false := by simpa using hEarly
    have hFailed : f.isTypeError → ∃ message, x.classify (x.delay ≤ t) f =
        .transport .connectionFailed message (c.url op.port op.path) none (some f) := by
      intro hType
      obtain ⟨reason, -, hRejection⟩ :=
        hRejects.connectionFailed hInTime (Failure.isTypeError_iff.mp hType) method hMethod
      exact ⟨_, by rw [hRejection, hUrl]⟩
    constructor
    · rw [hResults]
      simp [Except.map]
    · simp
    · intro f' hSame
      obtain rfl : f = f' := by simpa using hSame
      have hSame (hOther : f.isTypeError = false) : x.classify (x.delay ≤ t) f = f :=
        hRejects.passedOn hInTime (Failure.isTypeError_eq_false_iff.mp hOther)
      exact ⟨_, hResults, hSame, hFailed⟩
    · simp
    · simp
  | pending =>
    rw [hRelease] at hResults
    cases hScript : s.heedsAbort with
    | true =>
      have hRejects := (x.rejects_classify (x.delay ≤ x.delay) .aborted).timedOut (by simp)
        method hMethod
      simp only [hScript, if_true, Option.map_some, mapError_error, Except.map] at hResults
      rw [hRejects, hUrl, hTimeout, hDelay] at hResults
      exact ⟨by simp [hResults], by simp, by simp, fun _ _ => ⟨_, hResults⟩, by simp [hScript]⟩
    | false =>
      have hNever : (soloAt now (c.call op) s).results = [none] := by simpa [hScript] using hResults
      exact ⟨by simp [hNever], by simp, by simp, by simp [hScript], fun _ _ => hNever⟩

theorem followsRelease_register [Nesting] {c : Client} (hLog : c.log.NeverFails) {port : Number}
    (hPort : validPort port) {reg : Registration} {s : Script} {t : Nat} {r : Response}
    (hReply : s.reply = .after t (.ok r)) (hTime : t < timerDelay c.timeout)
    (hGranted : Enroll.granted r.status) (now : Nat) :
    FollowsRelease c (.register port reg) s now t (.outcome .accepted) r.body.atOnce.giveUp := by
  have hReact : (c.registering port reg).react r.status = .discardBody .accepted := if_pos hGranted
  have hMethod : (c.registering port reg).method = .ok "POST" := rfl
  exact (performs_register hLog hPort reg now s).followsRelease rfl rfl hMethod hReply hTime hReact

/-- An operation that has no use for the body has the result of the status if and only if the
body is released, and otherwise what the release comes to. -/
theorem operation_follows_release [Nesting] {c : Client} (hLog : c.log.NeverFails) {op : Operation}
    (hPort : validPort op.port) {s : Script} {t : Nat} {r : Response}
    (hReply : s.reply = .after t (.ok r)) (hTime : t < timerDelay c.timeout)
    (hDiscards : op.discards r.status) (now : Nat) :
    FollowsRelease c op s now t (op.found r.status) r.body.atOnce.giveUp := by
  cases op with
  | register port reg => exact followsRelease_register hLog hPort hReply hTime hDiscards now
  | checkHealth port =>
    have hMethod : (c.probing port).method = .ok "GET" := rfl
    exact (performs_checkHealth hLog hPort now s).followsRelease rfl rfl hMethod hReply hTime rfl

/-- A probe whose answer has a body that is released has its result when it is answered. -/
theorem operation_follows_release_granted :
    let c : Client := ⟨defaultHost, 100, .console⟩
    let s : Script := ⟨.after 9 (.ok ⟨503, .stream [] .granted⟩), true, .aborted⟩
    FollowsRelease c (.checkHealth 80) s 5 9 (.healthy false) .granted ∧
      (soloAt 5 (c.call (.checkHealth 80)) s).results = [some ⟨.ok (.healthy false), 14⟩] := by
  intro c s
  let op : Operation := .checkHealth 80
  let r : Response := ⟨503, .stream [] .granted⟩
  have hLog : c.log.NeverFails := trivial
  have hPort : validPort op.port := by decide
  have hReply : s.reply = .after 9 (.ok r) := rfl
  have hTime : 9 < timerDelay c.timeout := by decide
  have hDiscards : op.discards r.status := rfl
  have hFollows := operation_follows_release hLog hPort hReply hTime hDiscards 5
  exact ⟨hFollows, hFollows.granted rfl⟩

/-- A registration that is granted with a body whose release fails is not accepted. -/
theorem granted_registration_fails :
    let c : Client := ⟨defaultHost, 10000, .recorder none [] fun _ => none⟩
    let boom : Failure := .error .plain "boom" none none
    let s : Script := ⟨.after 0 (.ok ⟨200, .stream [] (.refused boom)⟩), true, .aborted⟩
    (soloAt 0 (c.call (.register 4000 ⟨"alice", "k"⟩)) s).results = [some ⟨.error boom, 0⟩] := by
  intro c boom s
  let reg : Registration := ⟨"alice", "k"⟩
  let r : Response := ⟨200, .stream [] (.refused boom)⟩
  have hLog : c.log.NeverFails := fun _ _ => rfl
  have hPort : validPort 4000 := by decide
  have hReply : s.reply = .after 0 (.ok r) := rfl
  have hTime : 0 < timerDelay c.timeout := by decide
  have hGranted : Enroll.granted r.status := by decide
  have hFollows : FollowsRelease c (.register 4000 reg) s 0 0 (.outcome .accepted)
      r.body.atOnce.giveUp := followsRelease_register hLog hPort hReply hTime hGranted 0
  obtain ⟨rejection, hResults, hSame, -⟩ := hFollows.refused boom rfl
  rw [hResults, hSame rfl]

end Client

end Enroll
