import Enroll.Proofs.Exchange.Alone
import Enroll.Proofs.Failure

/-!
# What an exchange rejects with

A failure of the request or of the reaction is judged once, by the time at which it is there: from
the moment on at which the timer runs out it is a timeout, whatever it is; before, a type error is a
failed connection, and any other failure stays what it is.
-/

namespace Enroll

namespace Effect

def isSent : Effect → Bool
  | .sent _ _ => true
  | _ => false

def isAborted : Effect → Bool
  | .aborted => true
  | _ => false

end Effect

namespace Exchange

variable {β : Type}

/-- The method that a failure of the exchange names, or what keeps it from being named. -/
def method (x : Exchange β) : Except Failure Text :=
  letI := x.nesting
  x.request.method

/-- What the caller has of a failure that is there after the timer ran out, or before. A request
whose method has no text cannot be described, and fails with that. -/
structure Rejects (x : Exchange β) (ranOut : Bool) (e rejection : Failure) : Prop where
  timedOut : ranOut → ∀ method, x.method = .ok method →
    rejection = .transport .timeout
      ("keyreg-client:http-exchange:exchange - " ++ method ++ " " ++ x.request.url ++
        (" timed out after " ++ x.timeout.text ++ "ms"))
      x.request.url (some x.timeout) (some e)
  connectionFailed : ranOut = false → e.TypeError → ∀ method, x.method = .ok method →
    ∃ reason, e.NetworkReason reason ∧
      rejection = .transport .connectionFailed
        ("keyreg-client:http-exchange:exchange - " ++ method ++ " " ++ x.request.url ++
          (" failed: " ++ reason))
        x.request.url none (some e)
  passedOn : ranOut = false → ¬e.TypeError → rejection = e
  undescribed : ranOut ∨ e.TypeError → ∀ f, x.method = .error f → rejection = f

theorem rejects_classify (x : Exchange β) (ranOut : Bool) (e : Failure) :
    x.Rejects ranOut e (x.classify ranOut e) := by
  let _ := x.nesting
  constructor
  · intro hLate method hMethod
    have hRequest : x.request.method = .ok method := hMethod
    simp only [classify, hLate, if_true, Exchange.timedOut, described, hRequest]
    rfl
  · intro hEarly hType method hMethod
    have hRequest : x.request.method = .ok method := hMethod
    refine ⟨e.networkReason, Failure.networkReason_networkReason hType, ?_⟩
    simp only [classify, hEarly, Failure.isTypeError_iff.mpr hType, if_true, Bool.false_eq_true,
      if_false, Exchange.connectionFailed, described, hRequest]
    rfl
  · intro hEarly hOther
    have hType := Failure.isTypeError_eq_false_iff.mpr hOther
    simp only [classify, hEarly, hType, Bool.false_eq_true, if_false]
  · intro hJudged f hMethod
    have hRequest : x.request.method = .error f := hMethod
    by_cases hLate : ranOut
    · simp only [classify, hLate, if_true, Exchange.timedOut, described, hRequest]
    · have hType := Failure.isTypeError_iff.mpr (hJudged.resolve_left hLate)
      simp only [classify, hLate, hType, if_true, Bool.false_eq_true, if_false,
        Exchange.connectionFailed, described, hRequest]

/-! ## What shows -/

theorem effect_of_mem_touched {x : Exchange β} {s : Script} {now : Nat} {e : Event}
    (h : e ∈ x.touched s now) : e.effect = .read ∨ e.effect = .cancelled := by
  unfold touched at h
  split at h
  · rename_i t r hArrival
    obtain ⟨effect, hEffect, rfl⟩ := List.mem_map.mp h
    cases hReaction : x.react r.status with
    | readBody value =>
      rw [hReaction] at hEffect
      cases hBody : r.body.opened <;>
        simp_all [Reaction.touch, Progress.readEffects]
    | discardBody value =>
      rw [hReaction] at hEffect
      cases hShows : r.body.opened.showsGivenUp <;> simp_all [Reaction.touch]
    | _ => simp [hReaction, Reaction.touch] at hEffect
  · simp at h

theorem filter_isSent_seen (x : Exchange β) (s : Script) (now : Nat) :
    (x.seen s now).filter (fun e => e.effect.isSent) = [] := by
  have hTouched : (x.touched s now).filter (fun e => e.effect.isSent) = [] := by
    rw [List.filter_eq_nil_iff]
    intro e he
    rcases effect_of_mem_touched he with hEffect | hEffect <;> simp [hEffect, Effect.isSent]
  have hGaveUp : (x.gaveUp s now).filter (fun e => e.effect.isSent) = [] := by
    rw [gaveUp]
    split <;> rfl
  rw [seen]
  split <;> rw [List.filter_append, hTouched, hGaveUp] <;> rfl

theorem filter_isAborted_seen (x : Exchange β) (s : Script) (now : Nat) :
    (x.seen s now).filter (fun e => e.effect.isAborted) = x.gaveUp s now := by
  have hTouched : (x.touched s now).filter (fun e => e.effect.isAborted) = [] := by
    rw [List.filter_eq_nil_iff]
    intro e he
    rcases effect_of_mem_touched he with hEffect | hEffect <;> simp [hEffect, Effect.isAborted]
  have hGaveUp : (x.gaveUp s now).filter (fun e => e.effect.isAborted) = x.gaveUp s now := by
    rw [gaveUp]
    split <;> rfl
  rw [seen]
  split <;> rw [List.filter_append, hTouched, hGaveUp] <;> simp

/-! ## How it ends -/

open Loop in
/-- An exchange sends its request once. It settles when the request and the reaction have come to
something, with their value or with their failure as the timer makes it; then none of its timers is
set, and nothing shows of it any more. -/
theorem settles_as_attempted (x : Exchange β) (s : Script) (now : Nat) :
    let opening : Act (Call β) := pure (Call.closing x Act.ofExcept)
    let report := soloAt now opening s
    let events := report.notes.map Note.event
    events.filter (fun e => e.effect.isSent) = [⟨now, .sent x.request false⟩] ∧
      report.pending = 0 ∧
      (∀ more l, Moves ((startingAt now).perform (.single opening s)).1 more l → more = []) ∧
      match x.attempt s with
      | none => report.results = [none]
      | some (t, .ok value) => report.results = [some ⟨.ok value, now + t⟩]
      | some (t, .error e) =>
        (events.filter (fun e => e.effect.isAborted) =
          if x.delay ≤ t then [⟨now + x.delay, .aborted⟩] else []) ∧
        ∃ rejection, report.results = [some ⟨.error rejection, now + t⟩] ∧
          x.Rejects (x.delay ≤ t) e rejection := by
  intro opening report events
  obtain ⟨hResults, hPending, hEvents⟩ :=
    soloAt_closing (show opening.result = .ok (Call.closing x Act.ofExcept) from rfl) now s
  have hClosed : closed (Act.ofExcept (α := β)) (Course.later now (x.verdict s)) = [] := by
    cases x.verdict s <;> rfl
  rw [hClosed, List.append_nil] at hEvents
  have hAll : events = [⟨now, .sent x.request false⟩] ++ x.seen s now := hEvents
  refine ⟨?_, hPending, fun more l hMoves => silent_after_solo hMoves, ?_⟩
  · rw [hAll, List.filter_append, filter_isSent_seen]
    rfl
  · rw [verdict] at hResults
    split
    · rename_i hAttempt
      rw [hAttempt] at hResults
      exact hResults
    · rename_i t value hAttempt
      rw [hAttempt] at hResults
      exact hResults
    · rename_i t e hAttempt
      rw [hAttempt] at hResults
      constructor
      · rw [hAll, List.filter_append, filter_isAborted_seen, gaveUp, hAttempt]
        by_cases hLate : x.delay ≤ t
        · have hWithin : ¬ t < x.delay := Nat.not_lt_of_le hLate
          simp [Course.within, hWithin, hLate, Effect.isAborted]
        · have hWithin : t < x.delay := Nat.lt_of_not_le hLate
          simp [Course.within, hWithin, hLate, Effect.isAborted]
      · exact ⟨_, hResults, rejects_classify x (x.delay ≤ t) e⟩

end Exchange

end Enroll
