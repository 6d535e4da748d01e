import Enroll.Proofs.Exchange.Classification

/-!
# Exchanges that outlast their timer

All that the timer does is to give up the request. What is under way at that time either takes
notice, and is a timeout then and there, or goes on as if nothing had happened. A failure that
comes so late is still told as a timeout, but a value is delivered as it is. So a value comes
before the timer runs out exactly where somebody takes notice of it.
-/

namespace Enroll.Exchange

variable {β : Type} {x : Exchange β} {s : Script}

/-- What an exchange comes to if nothing of it is ever given up. -/
def unhurried (x : Exchange β) (s : Script) : Course (Except Failure β) :=
  match s.reply.course with
  | none => none
  | some (t, .error f) => some (t, .error f)
  | some (t, .ok r) => Course.later t ((x.react r.status).course r.body)

/-- Whether what is under way when the timer runs out takes notice of it: the request, or what is
done with a response that is there by then. -/
def heedsTimer (x : Exchange β) (s : Script) : Bool :=
  s.heedsAbort &&
    match s.reply.course with
    | some (t, .ok r) => x.delay ≤ t || (x.react r.status).heeds
    | _ => true

/-- What is had of something that takes notice of the timer. -/
def withdrawal (x : Exchange β) (s : Script) : Failure :=
  if s.reply.course.within x.delay then .aborted else s.onAbort

theorem within_of_late {γ : Type} {d t : Nat} (hLate : d ≤ t) (v : γ) :
    Course.within d (some (t, v)) = false := by
  simpa [Course.within] using hLate

theorem within_of_never_early {γ : Type} {d : Nat} {course : Course γ}
    (hLate : ∀ t v, course = some (t, v) → d ≤ t) : course.within d = false := by
  cases course with
  | none => rfl
  | some had => exact within_of_late (hLate had.1 had.2 rfl) had.2

theorem within_of_early {γ : Type} {d t : Nat} (hEarly : t < d) (v : γ) :
    Course.within d (some (t, v)) := by
  simpa [Course.within] using hEarly

/-- Nothing is had before there is an answer. -/
theorem within_unhurried_of_late (hLate : s.reply.course.within x.delay = false) :
    (x.unhurried s).within x.delay = false := by
  rw [unhurried]
  split
  · rfl
  · rename_i t f hReply
    rw [hReply] at hLate
    exact hLate
  · rename_i t r hReply
    rw [hReply] at hLate
    have hAnswer : x.delay ≤ t := by simpa [Course.within] using hLate
    cases (x.react r.status).course r.body with
    | none => rfl
    | some had => exact within_of_late (by omega) had.2

/-- The timer cuts off what takes notice of it and does nothing else. -/
theorem attempt_eq (x : Exchange β) (s : Script) :
    x.attempt s =
      if x.heedsTimer s then (x.unhurried s).cutAt x.delay (.error (x.withdrawal s))
      else x.unhurried s := by
  -- with an answer in time the timer meets the reaction; without one it meets the request
  cases hWithin : s.reply.course.within x.delay with
  | true =>
    obtain ⟨⟨t, answer⟩, hReply⟩ : ∃ had, s.reply.course = some had := by
      cases hReply : s.reply.course with
      | none => simp [hReply, Course.within] at hWithin
      | some had => exact ⟨had, rfl⟩
    have hEarly : t < x.delay := by simpa [hReply, Course.within] using hWithin
    have hArrival := arrival_of_early hReply hEarly
    cases answer with
    | error f =>
      have hCut := Course.cutAt_of_within (v := .error (x.withdrawal s))
        (within_of_early hEarly (.error f : Except Failure β))
      simp only [attempt, hArrival, unhurried, hReply, hCut, ite_self]
    | ok r =>
      have hHeeds : x.heedsTimer s = (s.heedsAbort && (x.react r.status).heeds) := by
        have hNotLate : ¬ x.delay ≤ t := Nat.not_le_of_lt hEarly
        simp only [heedsTimer, hReply, hNotLate, decide_false, Bool.false_or]
      have hWithdrawal : x.withdrawal s = .aborted := if_pos hWithin
      simp only [attempt, hArrival, reacted, unhurried, hReply, hHeeds, hWithdrawal]
  | false =>
    have hLate := within_unhurried_of_late (x := x) hWithin
    cases hScript : s.heedsAbort with
    | true =>
      have hHeeds : x.heedsTimer s := by
        rw [heedsTimer, hScript, Bool.true_and]
        split
        · rename_i t r hReply
          have hAnswer : x.delay ≤ t := by simpa [hReply, Course.within] using hWithin
          simp [hAnswer]
        · rfl
      rw [if_pos hHeeds, Course.cutAt_of_late hLate, attempt, arrival_of_heeds hWithin hScript,
        withdrawal, hWithin]
      rfl
    | false =>
      have hDeaf : x.heedsTimer s = false := by rw [heedsTimer, hScript, Bool.false_and]
      have hReacted : ∀ t r, x.reacted s t r =
          Course.later t ((x.react r.status).course r.body) := by
        intro t r
        rw [reacted, hScript, Bool.false_and]
        rfl
      simp only [hDeaf, attempt, arrival_of_deaf hScript, unhurried, hReacted]
      rfl

/-- Whether something is had in time does not depend on who takes notice of the timer. -/
theorem within_attempt (x : Exchange β) (s : Script) :
    (x.attempt s).within x.delay = (x.unhurried s).within x.delay := by
  rw [attempt_eq]
  split
  · cases hWithin : (x.unhurried s).within x.delay with
    | true => rw [Course.cutAt_of_within hWithin, hWithin]
    | false =>
      rw [Course.cutAt_of_late hWithin]
      exact within_of_late (Nat.le_refl _) _
  · rfl

theorem attempt_of_within (hWithin : (x.unhurried s).within x.delay) :
    x.attempt s = x.unhurried s := by
  rw [attempt_eq, Course.cutAt_of_within hWithin, ite_self]

theorem attempt_of_given_up (hLate : (x.unhurried s).within x.delay = false)
    (hHeeds : x.heedsTimer s) : x.attempt s = some (x.delay, .error (x.withdrawal s)) := by
  rw [attempt_eq, if_pos hHeeds, Course.cutAt_of_late hLate]

theorem attempt_of_unheeded (hDeaf : x.heedsTimer s = false) : x.attempt s = x.unhurried s := by
  rw [attempt_eq, hDeaf]
  rfl

theorem attempt_eq_value_iff {t : Nat} {v : β} :
    x.attempt s = some (t, .ok v) ↔
      x.unhurried s = some (t, .ok v) ∧ (t < x.delay ∨ x.heedsTimer s = false) := by
  cases hHeeds : x.heedsTimer s with
  | false => simp [attempt_of_unheeded hHeeds]
  | true =>
    cases hWithin : (x.unhurried s).within x.delay with
    | true =>
      rw [attempt_eq, if_pos hHeeds, Course.cutAt_of_within hWithin]
      constructor
      · intro hValue
        rw [hValue] at hWithin
        exact ⟨hValue, .inl (by simpa [Course.within] using hWithin)⟩
      · exact And.left
    | false =>
      rw [attempt_of_given_up hWithin hHeeds]
      constructor
      · simp
      · rintro ⟨hValue, hEarly | hDeaf⟩
        · rw [hValue, within_of_early hEarly] at hWithin
          simp at hWithin
        · simp at hDeaf

theorem verdict_of_finished {t : Nat} {r : Except Failure β} (h : x.unhurried s = some (t, r))
    (hEarly : t < x.delay) : x.verdict s = some (t, r.mapError (x.classify false)) := by
  have hWithin : (x.unhurried s).within x.delay := by
    rw [h]
    exact within_of_early hEarly r
  have hAttempt : x.attempt s = some (t, r) := (attempt_of_within hWithin).trans h
  have hInTime : decide (x.delay ≤ t) = false := decide_eq_false (Nat.not_le_of_lt hEarly)
  rw [verdict, hAttempt, Option.map_some, hInTime]

theorem verdict_of_unfinished (hLate : ∀ t r, x.unhurried s = some (t, r) → x.delay ≤ t)
    (hHeeds : x.heedsTimer s) :
    x.verdict s = some (x.delay, .error (x.classify true (x.withdrawal s))) := by
  rw [verdict, attempt_of_given_up (within_of_never_early hLate) hHeeds]
  simp

theorem heedsTimer_of_heeds (hReacts : ∀ status, (x.react status).heeds) (hScript : s.heedsAbort) :
    x.heedsTimer s := by
  rw [heedsTimer, hScript, Bool.true_and]
  split
  · simp [hReacts]
  · rfl

open Loop

/-- An exchange whose caller takes what comes. -/
def alone (x : Exchange β) : Act (Call β) := pure (Call.closing x Act.ofExcept)

theorem soloAt_alone (x : Exchange β) (s : Script) (now : Nat) :
    (soloAt now x.alone s).results =
        [(x.verdict s).map fun had => ⟨had.2, now + had.1⟩] ∧
      (soloAt now x.alone s).notes.map Note.event =
        ⟨now, .sent x.request false⟩ :: x.seen s now := by
  obtain ⟨hResults, -, hEvents⟩ :=
    soloAt_closing (show x.alone.result = .ok (Call.closing x Act.ofExcept) from rfl) now s
  refine ⟨hResults, ?_⟩
  have hClosed : closed (Act.ofExcept (α := β)) (Course.later now (x.verdict s)) = [] := by
    cases x.verdict s <;> rfl
  rw [hEvents, hClosed, List.append_nil]
  rfl

/-- What comes of an exchange that is begun at a time, as its timer has it. -/
structure KeepsTimer (x : Exchange β) (s : Script) (now : Nat) : Prop where
  delivers_iff : ∀ v a, (soloAt now x.alone s).results = [some ⟨.ok v, a⟩] ↔
    ∃ t, a = now + t ∧ x.unhurried s = some (t, .ok v) ∧
      (t < x.delay ∨ x.heedsTimer s = false)
  aborted : ((soloAt now x.alone s).notes.map Note.event).filter (fun e => e.effect.isAborted) =
    if (x.unhurried s).within x.delay then [] else [⟨now + x.delay, .aborted⟩]
  givenUp : (x.unhurried s).within x.delay = false → x.heedsTimer s → ∃ rejection,
    (soloAt now x.alone s).results = [some ⟨.error rejection, now + x.delay⟩] ∧
      x.Rejects true (x.withdrawal s) rejection
  failsLate : ∀ t e, x.unhurried s = some (t, .error e) → x.delay ≤ t →
    x.heedsTimer s = false → ∃ rejection,
      (soloAt now x.alone s).results = [some ⟨.error rejection, now + t⟩] ∧
        x.Rejects true e rejection

theorem results_of_failure {t : Nat} {e : Failure} (hAttempt : x.attempt s = some (t, .error e))
    (hLate : x.delay ≤ t) (now : Nat) : ∃ rejection,
      (soloAt now x.alone s).results = [some ⟨.error rejection, now + t⟩] ∧
        x.Rejects true e rejection := by
  refine ⟨x.classify true e, ?_, x.rejects_classify true e⟩
  rw [(soloAt_alone x s now).1, verdict, hAttempt]
  simp [hLate]

theorem results_eq_value_iff (now : Nat) (v : β) (a : Nat) :
    (soloAt now x.alone s).results = [some ⟨.ok v, a⟩] ↔
      ∃ t, a = now + t ∧ x.attempt s = some (t, .ok v) := by
  rw [(soloAt_alone x s now).1, verdict]
  cases hAttempt : x.attempt s with
  | none => simp
  | some had =>
    obtain ⟨t, r⟩ := had
    cases r with
    | error e => simp
    | ok value =>
      simp only [Option.map_some, mapError_ok, List.cons.injEq, Option.some.injEq,
        Settled.mk.injEq, Except.ok.injEq, Prod.mk.injEq, and_true]
      constructor
      · rintro ⟨rfl, rfl⟩
        exact ⟨t, rfl, rfl, rfl⟩
      · rintro ⟨_, rfl, rfl, rfl⟩
        exact ⟨rfl, rfl⟩

/-- An exchange delivers a value in time, or late where nobody took notice of its timer. All else
that is late is a timeout. -/
theorem value_in_time_or_unheeded (x : Exchange β) (s : Script) (now : Nat) :
    x.KeepsTimer s now := by
  constructor
  · intro v a
    rw [results_eq_value_iff]
    simp only [attempt_eq_value_iff]
  · rw [(soloAt_alone x s now).2, ← within_attempt]
    exact x.filter_isAborted_seen s now
  · intro hLate hHeeds
    exact results_of_failure (attempt_of_given_up hLate hHeeds) (Nat.le_refl _) now
  · intro t e hUnhurried hLate hDeaf
    exact results_of_failure ((attempt_of_unheeded hDeaf).trans hUnhurried) hLate now

/-- A handler that takes its time is not stopped by the timer, and its value is delivered. -/
theorem late_value_delivered :
    let x : Exchange Nat := ⟨probeRequest "http://localhost:4000/", 30, fun _ => .pause 300 (.ok 7)⟩
    let s : Script := ⟨.after 0 (.ok ⟨200, .absent⟩), true, .aborted⟩
    (soloAt 0 x.alone s).results = [some ⟨.ok 7, 300⟩] ∧
      (soloAt 0 x.alone s).notes.map Note.event =
        [⟨0, .sent x.request false⟩, ⟨30, .aborted⟩] := by
  intro x s
  have hDelay : x.delay = 30 := by decide
  have hDeaf : x.heedsTimer s = false := by
    rw [heedsTimer, hDelay]
    rfl
  have hUnhurried : x.unhurried s = some (300, .ok 7) := rfl
  have hAttempt : x.attempt s = some (300, .ok 7) := (attempt_of_unheeded hDeaf).trans hUnhurried
  constructor
  · rw [results_eq_value_iff]
    exact ⟨300, rfl, hAttempt⟩
  · have hArrival : s.arrival x.delay = some (0, .ok ⟨200, .absent⟩) :=
      arrival_of_early rfl (by rw [hDelay]; decide)
    rw [(soloAt_alone x s 0).2, seen_of_early hArrival (by rw [hDelay]; decide), gaveUp, hAttempt,
      hDelay]
    rfl

end Enroll.Exchange
