import Enroll.Proofs.Exchange.Solo
import Enroll.Proofs.Exchange.Verdict

/-!
# A call alone

A call that is run with nothing beside it comes to what its caller makes of the verdict of its
exchange (`soloAt_verdict`). What is to be done with a value of the exchange does not touch the
verdict, so a call that closes an exchange is read off the exchange itself (`soloAt_closing`).
-/

namespace Enroll

namespace Running

variable {α : Type}

def settledBy (onFailure : Failure → Act α) (c : Course (Except Failure (Act α))) :
    Option (Settled α) :=
  c.map fun had => ⟨(closing onFailure had.2).result, had.1⟩

/-- What the caller shows of a verdict. -/
def closingEvents (onFailure : Failure → Act α) : Course (Except Failure (Act α)) → List Event
  | none => []
  | some (t, r) => (closing onFailure r).effects.map (Event.mk t)

theorem movesAt_of_progress {r : Running α} {p : Progress (Act α)} {m : Moment}
    (hProgress : r.progress = some p) (hMoves : p.MovesAt m) : r.MovesAt m := by
  rw [MovesAt, next?, hProgress]
  exact hMoves

theorem runs_of_comes {p : Progress (Act α)} {es : List Event}
    {c : Course (Except Failure (Act α))} (hComes : p.Comes es c) {r : Running α}
    (hProgress : r.progress = some p) (hOpen : r.settled = none) :
    ∃ q, Runs r (es ++ closingEvents r.onFailure c) q ∧ q.Finished ∧
      q.settled = settledBy r.onFailure c := by
  induction hComes generalizing r with
  | stalls hNext hResult =>
    refine ⟨r, .refl r, .inr ?_, hOpen⟩
    simpa [next?, hProgress] using hNext
  | @ends p result m hMoves hResult =>
    have hStep := step_of_progress hProgress m
    rw [settle_of_result hOpen hResult] at hStep
    have hMovesAt : r.MovesAt m := movesAt_of_progress hProgress hMoves
    have hRuns := Runs.move m hMovesAt (.refl (r.step m).1)
    rw [hStep] at hRuns
    refine ⟨⟨some (p.step m).1, r.onFailure,
      some ⟨(closing r.onFailure result).result, m.now⟩⟩, ?_, .inl rfl, rfl⟩
    simpa [shown, closingEvents] using hRuns
  | @moves p es c m hMoves hResult hRest ih =>
    have hStep := step_of_progress hProgress m
    rw [settle_of_none hResult] at hStep
    have hMovesAt : r.MovesAt m := movesAt_of_progress hProgress hMoves
    obtain ⟨q, hRuns, hFinished, hSettled⟩ :=
      @ih { r with progress := some (p.step m).1 } rfl hOpen
    refine ⟨q, ?_, hFinished, hSettled⟩
    have hAll := Runs.move m hMovesAt (by rw [hStep]; exact hRuns)
    rw [hStep] at hAll
    simpa [shown] using hAll

theorem Sound.pending_of_finished {r : Running α} (h : r.Sound) (hFinished : r.Finished) :
    r.pending = 0 := by
  rcases hFinished with hSettled | hNext
  · exact h.pending_of_settled hSettled
  · cases hProgress : r.progress with
    | none => simp [pending, hProgress]
    | some p =>
      have hNone : p.next? = none := by simpa [next?, hProgress] using hNext
      have hAlarms : p.alarms = [] := by
        unfold Progress.next? at hNone
        split at hNone
        · simp at hNone
        · exact Progress.earliest?_eq_none_iff.mp (Option.map_eq_none_iff.mp hNone)
      simp [pending, hProgress, Progress.pending, hAlarms]

end Running

namespace Loop

variable {α : Type}

/-- A call alone comes to what its caller makes of the verdict of its exchange. -/
theorem soloAt_verdict {opening : Act (Call α)} {call : Call α} (hOpens : opening.result = .ok call)
    (now : Nat) (s : Script) :
    let c := Course.later now (call.exchange.verdict s)
    (soloAt now opening s).results = [Running.settledBy call.onFailure c] ∧
      (soloAt now opening s).pending = 0 ∧
      (soloAt now opening s).notes.map Note.event =
        (opening.effects ++ [Effect.sent call.exchange.request false]).map (Event.mk now) ++
          (call.exchange.seen s now ++ Running.closingEvents call.onFailure c) := by
  let m : Moment := ⟨now, 0, 0⟩
  have hStart : Running.start opening s m =
      (⟨some (Progress.start call.exchange s m).1, call.onFailure, none⟩,
        opening.effects ++ [Effect.sent call.exchange.request false]) := by
    rw [Running.start, hOpens]
    rfl
  obtain ⟨q, hRuns, hFinished, hSettled⟩ := Running.runs_of_comes
    (Progress.comes_start call.exchange s m) (r := (Running.start opening s m).1)
    (by rw [hStart]) (by rw [hStart])
  obtain ⟨hResults, hPending, hNotes⟩ := soloAt_of_run (show m.now = now from rfl) hRuns hFinished
  have hSound := hRuns.sound (Running.sound_start opening s m)
  rw [hStart] at hSettled hNotes
  refine ⟨?_, ?_, hNotes⟩
  · rw [hResults, hSettled]
  · rw [hPending, hSound.pending_of_finished hFinished]

/-- A call that fails before its exchange is over at once. -/
theorem soloAt_of_failed {opening : Act (Call α)} {f : Failure} (hFails : opening.result = .error f)
    (now : Nat) (s : Script) :
    (soloAt now opening s).results = [some ⟨.error f, now⟩] ∧
      (soloAt now opening s).notes.map Note.event = opening.effects.map (Event.mk now) := by
  let m : Moment := ⟨now, 0, 0⟩
  have hStart : Running.start opening s m =
      (⟨none, fun f => .fail f, some ⟨.error f, now⟩⟩, opening.effects) := by
    rw [Running.start, hFails]
  have hFinished : (Running.start opening s m).1.Finished := by
    rw [hStart]
    exact .inl rfl
  obtain ⟨hResults, -, hNotes⟩ := soloAt_of_run (show m.now = now from rfl) (.refl _) hFinished
  rw [hStart] at hResults hNotes
  rw [List.append_nil] at hNotes
  exact ⟨hResults, hNotes⟩

/-- What shows before a call begins leaves the rest as it is. -/
theorem soloAt_preceded (before : List Effect) (opening : Act (Call α)) (now : Nat) (s : Script) :
    let preceded : Act (Call α) := ⟨before ++ opening.effects, opening.result⟩
    (soloAt now preceded s).results = (soloAt now opening s).results ∧
      (soloAt now preceded s).notes.map Note.event =
        before.map (Event.mk now) ++ (soloAt now opening s).notes.map Note.event := by
  intro preceded
  cases hOpening : opening.result with
  | error f =>
    obtain ⟨hResults, hEvents⟩ := soloAt_of_failed hOpening now s
    have hPreceded : preceded.result = .error f := hOpening
    obtain ⟨hResults', hEvents'⟩ := soloAt_of_failed hPreceded now s
    refine ⟨hResults'.trans hResults.symm, ?_⟩
    rw [hEvents', hEvents]
    exact List.map_append
  | ok call =>
    obtain ⟨hResults, -, hEvents⟩ := soloAt_verdict hOpening now s
    have hPreceded : preceded.result = .ok call := hOpening
    obtain ⟨hResults', -, hEvents'⟩ := soloAt_verdict hPreceded now s
    refine ⟨hResults'.trans hResults.symm, ?_⟩
    rw [hEvents', hEvents, List.append_assoc, List.map_append, List.append_assoc]

end Loop

/-! ## What follows within an exchange -/

section Map

variable {β γ : Type}

theorem Course.onValue_later (f : β → γ) (n : Nat) (c : Course β) :
    Course.onValue f (Course.later n c) = Course.later n (Course.onValue f c) := by
  cases c <;> rfl

theorem Course.within_onValue (f : β → γ) (d : Nat) (c : Course β) :
    Course.within d (Course.onValue f c) = Course.within d c := by
  cases c <;> rfl

theorem Course.onValue_cutAt (f : β → γ) (d : Nat) (v : β) (c : Course β) :
    Course.onValue f (Course.cutAt d v c) = Course.cutAt d (f v) (Course.onValue f c) := by
  cases hWithin : Course.within d c with
  | true => rw [cutAt_of_within hWithin, cutAt_of_within (by rwa [within_onValue])]
  | false =>
    rw [cutAt_of_late hWithin, cutAt_of_late (by rwa [within_onValue])]
    rfl

theorem Release.course_map (f : β → γ) (value : β) (r : Release) :
    r.course (f value) = Course.onValue (Except.map f) (r.course value) := by
  cases r <;> rfl

theorem Reaction.course_map (f : β → γ) (b : Body) (r : Reaction β) :
    (r.map f).course b = Course.onValue (Except.map f) (r.course b) := by
  cases r with
  | readBody value =>
    simp only [Reaction.map, course]
    cases b.text with
    | none => rfl
    | some had => cases hRead : had.2 <;> simp [Course.onValue, hRead, Except.map]
  | discardBody value => exact Release.course_map f value b.atOnce.giveUp
  | _ => rfl

theorem Reaction.heeds_map (f : β → γ) (r : Reaction β) : (r.map f).heeds = r.heeds := by
  cases r <;> rfl

theorem Reaction.touch_map (f : β → γ) (b : Body) (r : Reaction β) :
    (r.map f).touch b = r.touch b := by
  cases r <;> rfl

namespace Exchange

/-- Two exchanges under one limit that do the same with the response that comes to them, but for
the value they have of it. -/
structure SameButValue (f : β → γ) (s : Script) (x : Exchange β) (y : Exchange γ) : Prop where
  timeout : y.timeout = x.timeout
  react : ∀ t r, s.arrival x.delay = some (t, .ok r) → y.react r.status = (x.react r.status).map f

namespace SameButValue

variable {f : β → γ} {s : Script} {x : Exchange β} {y : Exchange γ}

theorem delay (h : SameButValue f s x y) : y.delay = x.delay := congrArg timerDelay h.timeout

theorem attempt (h : SameButValue f s x y) :
    y.attempt s = Course.onValue (Except.map f) (x.attempt s) := by
  rw [Exchange.attempt, Exchange.attempt, h.delay]
  cases hArrival : s.arrival x.delay with
  | none => rfl
  | some had =>
    obtain ⟨t, answer⟩ := had
    cases answer with
    | error e => rfl
    | ok r =>
      simp only [reacted, h.react t r hArrival, h.delay, Reaction.heeds_map, Reaction.course_map]
      split
      · rw [Course.onValue_cutAt, Course.onValue_later]
        rfl
      · rw [Course.onValue_later]

theorem gaveUp (h : SameButValue f s x y) (now : Nat) : y.gaveUp s now = x.gaveUp s now := by
  rw [Exchange.gaveUp, Exchange.gaveUp, h.attempt, Course.within_onValue, h.delay]

theorem touched (h : SameButValue f s x y) (now : Nat) : y.touched s now = x.touched s now := by
  rw [Exchange.touched, Exchange.touched, h.delay]
  split
  · rename_i t r hArrival
    rw [h.react t r hArrival, Reaction.touch_map]
  · rfl

theorem seen (h : SameButValue f s x y) (now : Nat) : y.seen s now = x.seen s now := by
  rw [Exchange.seen, Exchange.seen, h.delay, h.touched, h.gaveUp]

/-- Whatever it has is the value of something that the other has. -/
theorem value_of_verdict (h : SameButValue f s x y) {t : Nat} {value : γ}
    (hVerdict : y.verdict s = some (t, .ok value)) : ∃ b, value = f b := by
  rw [verdict, h.attempt] at hVerdict
  cases hAttempt : x.attempt s with
  | none => simp [hAttempt, Course.onValue] at hVerdict
  | some had =>
    obtain ⟨t', result⟩ := had
    cases result with
    | error e => simp [hAttempt, Course.onValue, Except.map] at hVerdict
    | ok b =>
      simp only [hAttempt, Course.onValue, Except.map, Option.map_some, mapError_ok,
        Option.some.injEq, Prod.mk.injEq, Except.ok.injEq] at hVerdict
      exact ⟨b, hVerdict.2.symm⟩

end SameButValue

variable (f : β → γ) (x : Exchange β) (s : Script)

theorem sameButValue_map : SameButValue f s x (x.map f) := ⟨rfl, fun _ _ _ => rfl⟩

theorem attempt_map : (x.map f).attempt s = Course.onValue (Except.map f) (x.attempt s) :=
  (sameButValue_map f x s).attempt

theorem gaveUp_map (now : Nat) : (x.map f).gaveUp s now = x.gaveUp s now :=
  (sameButValue_map f x s).gaveUp now

theorem seen_map (now : Nat) : (x.map f).seen s now = x.seen s now :=
  (sameButValue_map f x s).seen now

theorem verdict_map : (x.map f).verdict s = Course.onValue (Except.map f) (x.verdict s) := by
  have hDelay : (x.map f).delay = x.delay := rfl
  have hClassify : (x.map f).classify = x.classify := rfl
  rw [verdict, verdict, attempt_map, hDelay, hClassify]
  cases x.attempt s with
  | none => rfl
  | some had => cases hHad : had.2 <;> simp [Course.onValue, hHad, Except.map]

end Exchange

end Map

namespace Loop

variable {α β : Type}

/-- What the caller of an exchange shows of its verdict. -/
def closed (close : Except Failure β → Act α) : Course (Except Failure β) → List Event
  | none => []
  | some (t, r) => (close r).effects.map (Event.mk t)

theorem soloAt_closing {opening : Act (Call α)} {x : Exchange β} {close : Except Failure β → Act α}
    (hOpens : opening.result = .ok (Call.closing x close)) (now : Nat) (s : Script) :
    (soloAt now opening s).results =
        [(x.verdict s).map fun had => ⟨(close had.2).result, now + had.1⟩] ∧
      (soloAt now opening s).pending = 0 ∧
      (soloAt now opening s).notes.map Note.event =
        (opening.effects ++ [Effect.sent x.request false]).map (Event.mk now) ++
          (x.seen s now ++ closed close (Course.later now (x.verdict s))) := by
  obtain ⟨hResults, hPending, hNotes⟩ := soloAt_verdict hOpens now s
  have hExchange : (Call.closing x close).exchange = x.map fun b => close (.ok b) := rfl
  have hRequest : (x.map fun b => close (.ok b)).request = x.request := rfl
  have hClosing : ∀ r : Except Failure β, Running.closing (Call.closing x close).onFailure
      (r.map fun b => close (.ok b)) = close r := by
    intro r
    cases r <;> rfl
  rw [hExchange, Exchange.verdict_map] at hResults hNotes
  rw [Exchange.seen_map, hRequest] at hNotes
  refine ⟨?_, hPending, ?_⟩
  · rw [hResults]
    cases x.verdict s with
    | none => rfl
    | some had => simp [Running.settledBy, Course.onValue, Course.later, hClosing]
  · rw [hNotes]
    cases x.verdict s with
    | none => rfl
    | some had => simp [Running.closingEvents, closed, Course.onValue, Course.later, hClosing]

end Loop

end Enroll
