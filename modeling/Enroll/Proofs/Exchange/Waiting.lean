import Enroll.Proofs.Exchange.Ringing
import Enroll.Proofs.Exchange.Run

/-!
# What an exchange comes to

`Progress.Comes` is the run of an exchange up to its result. For an exchange that waits it is given
by its agenda and its timer: what is waited for is had unless the timer cuts it off
(`WaitsFor.comes`). The induction is on the agenda.
-/

namespace Enroll.Progress

variable {β : Type}

open Running (shown)

/-- Moving in its time the exchange comes to be over, or to wait for ever, and shows this. -/
inductive Comes : Progress β → List Event → Course (Except Failure β) → Prop where
  | stalls {p : Progress β} (hNext : p.next? = none) (hOpen : p.result? = none) : Comes p [] none
  | ends {p : Progress β} {r : Except Failure β} (m : Moment) (hMoves : p.MovesAt m)
      (hResult : (p.step m).1.result? = some r) : Comes p (shown m (p.step m).2) (some (m.now, r))
  | moves {p : Progress β} {es : List Event} {c : Course (Except Failure β)} (m : Moment)
      (hMoves : p.MovesAt m) (hOpen : (p.step m).1.result? = none)
      (hRest : Comes (p.step m).1 es c) : Comes p (shown m (p.step m).2 ++ es) c

theorem Comes.of_step {p q : Progress β} {m : Moment} {effects : List Effect} {es : List Event}
    {c : Course (Except Failure β)} (hMoves : p.MovesAt m) (hStep : p.step m = (q, effects))
    (hOpen : q.result? = none) (hRest : Comes q es c) : Comes p (shown m effects ++ es) c := by
  have hMoved : Comes p (shown m (p.step m).2 ++ es) c := by
    apply Comes.moves m hMoves
    · rwa [hStep]
    · rwa [hStep]
  rwa [hStep] at hMoved

theorem comes_of_concluding {p : Progress β} {r : Except Failure β}
    (hStage : p.stage = .concluding r) :
    Comes p [] (some (p.since.now, r.mapError (p.exchange.classify p.aborted))) := by
  have hMoves : p.MovesAt p.since := movesAt_since (by simp [hStage, Stage.atHand])
  have hEnds := Comes.ends p.since hMoves (r := r.mapError (p.exchange.classify p.aborted))
    (by rw [step_of_concluding hStage]; rfl)
  rwa [step_of_concluding hStage] at hEnds

theorem comes_of_refused {p : Progress β} {f : Failure} (hStage : p.stage = .answered (.error f)) :
    Comes p [] (some (p.since.now, .error (p.exchange.classify p.aborted f))) := by
  have hMoves : p.MovesAt p.since := movesAt_since (by simp [hStage, Stage.atHand])
  have hEnds := Comes.ends p.since hMoves (r := .error (p.exchange.classify p.aborted f))
    (by rw [step_of_refused hStage]; rfl)
  rwa [step_of_refused hStage] at hEnds

/-! ## The wait -/

/-- Whether the timer has run out at a time. -/
def late (timer : Option Nat) (t : Nat) : Bool :=
  match timer with
  | none => true
  | some d => d ≤ t

/-- That the timer runs out, if what is had is not had before. -/
def gaveUp {γ : Type} (timer : Option Nat) (c : Course γ) : List Event :=
  match timer with
  | none => []
  | some d => if c.within d then [] else [⟨d, .aborted⟩]

/-- What is left of a course that heeds the timer, or does not. -/
def cutBy (timer : Option Nat) (heeds : Bool) (c : Course (Except Failure β)) :
    Course (Except Failure β) :=
  match timer with
  | none => c
  | some d => if heeds then c.cutAt d (.error .aborted) else c

/-- What an exchange makes of what it was about. -/
def judged (x : Exchange β) (timer : Option Nat) (c : Course (Except Failure β)) :
    Course (Except Failure β) :=
  c.map fun had => (had.1, had.2.mapError (x.classify (late timer had.1)))

structure WaitsFor (p : Progress β) (timer : Option Nat) (others : List Alarm) : Prop where
  waits : p.stage.waits
  unread : ∀ value, p.stage = .reading value → p.body.read? = none
  awaits : p.Awaits timer others
  plain : ∀ a ∈ others, a.purpose.isPlain
  ordered : others.Pairwise NotAfter

section WaitsFor

variable {p : Progress β} {timer : Option Nat} {a : Alarm} {others rest : List Alarm}

theorem WaitsFor.result?_eq_none (h : p.WaitsFor timer others) : p.result? = none := by
  have hWaits := h.waits
  rw [result?]
  cases hStage : p.stage <;> simp_all [Stage.waits]

theorem WaitsFor.comes_of_gives (h : p.WaitsFor timer (a :: rest)) (hFirst : ∀ d ∈ timer, a.due < d)
    {r : Except Failure β} (hGives : p.stage.gives p.body a.purpose = some r) :
    Comes p [] (some (a.due, r.mapError (p.exchange.classify p.aborted))) := by
  obtain ⟨hMoves, left, hStep, -⟩ :=
    h.awaits.rings (m := ⟨a.due, 0, 0⟩) (Stage.atHand_of_waits h.waits) hFirst rfl
  obtain ⟨q, hRing, hStage, hExchange, hAborted, hSince⟩ := ring_of_gives_some
    (p := { p with alarms := left, since := ⟨a.due, 0, 0⟩ }) (m := ⟨a.due, 0, 0⟩) h.unread hGives
  have hComes := comes_of_concluding hStage
  rw [hExchange, hAborted, hSince] at hComes
  have hOpen : q.result? = none := by simp [result?, hStage]
  exact hComes.of_step hMoves (hStep.trans hRing) hOpen

/-- Any other alarm that runs out first leaves the wait as it is. -/
theorem WaitsFor.goesOn (h : p.WaitsFor timer (a :: rest)) (hFirst : ∀ d ∈ timer, a.due < d)
    (hGives : p.stage.gives p.body a.purpose = none) :
    ∃ q : Progress β, q.stage = p.stage ∧ q.body = p.body.rung a.purpose ∧
      q.exchange = p.exchange ∧ q.script = p.script ∧ q.WaitsFor timer rest ∧
      ∀ es c, Comes q es c → Comes p es c := by
  obtain ⟨hMoves, left, hStep, hAwaits⟩ :=
    h.awaits.rings (m := ⟨a.due, 0, 0⟩) (Stage.atHand_of_waits h.waits) hFirst rfl
  have hRing := ring_of_gives_none (p := { p with alarms := left, since := ⟨a.due, 0, 0⟩ })
    (m := ⟨a.due, 0, 0⟩) h.unread (h.plain a List.mem_cons_self) hGives
  have hUnread : ∀ value, p.stage = .reading value → (p.body.rung a.purpose).read? = none := by
    intro value hStage
    have hOpen := h.unread value hStage
    have hPlain := h.plain a List.mem_cons_self
    cases hPurpose : a.purpose <;>
      simp_all [Stage.gives, BodyState.rung, Purpose.isPlain]
  have hRest : WaitsFor { p with
      alarms := left, since := ⟨a.due, 0, 0⟩, body := p.body.rung a.purpose } timer rest :=
    ⟨h.waits, hUnread, hAwaits.congr rfl rfl, fun b hb => h.plain b (List.mem_cons_of_mem _ hb),
      h.ordered.of_cons⟩
  refine ⟨{ p with alarms := left, since := ⟨a.due, 0, 0⟩, body := p.body.rung a.purpose },
    rfl, rfl, rfl, rfl, hRest, fun es c hComes => ?_⟩
  exact hComes.of_step hMoves (hStep.trans hRing) hRest.result?_eq_none

theorem WaitsFor.comes_of_heeds {d : Nat} (h : p.WaitsFor (some d) others)
    (hFirst : ∀ a ∈ others, d ≤ a.due) (hScript : p.script.heedsAbort) (hHeeds : p.stage.heeds) :
    Comes p [⟨d, .aborted⟩] (some (d, .error (p.exchange.classify true .aborted))) := by
  obtain ⟨hMoves, left, hStep, -⟩ :=
    h.awaits.timer_rings (m := ⟨d, 0, 0⟩) (Stage.atHand_of_waits h.waits) hFirst rfl
  let q : Progress β := { p with alarms := left, since := ⟨d, 0, 0⟩, aborted := true }
  have hStage : q.withdraw.stage = .concluding (.error .aborted) :=
    stage_withdraw_of_heeds hHeeds h.unread
  have hKeeps := keeps_withdraw q
  have hComes := comes_of_concluding hStage
  rw [hKeeps.exchange, hKeeps.aborted, hKeeps.since] at hComes
  have hRing : ring { p with alarms := left, since := ⟨d, 0, 0⟩ } ⟨d, 0, 0⟩ .deadline =
      (q.withdraw, [.aborted]) := by
    simp only [ring, hScript, if_true]
    rfl
  have hOpen : q.withdraw.result? = none := by simp [result?, hStage]
  exact hComes.of_step hMoves (hStep.trans hRing) hOpen

/-- The timer runs out first and the wait goes on without it. -/
theorem WaitsFor.goesOn_untimed {d : Nat} (h : p.WaitsFor (some d) others)
    (hFirst : ∀ a ∈ others, d ≤ a.due) (hHeeds : (p.script.heedsAbort && p.stage.heeds) = false) :
    ∃ q : Progress β, q.stage.awaited q.body others = p.stage.awaited p.body others ∧
      q.exchange = p.exchange ∧ q.WaitsFor none others ∧
      ∀ es c, Comes q es c → Comes p (⟨d, .aborted⟩ :: es) c := by
  obtain ⟨hMoves, left, hStep, hLeft⟩ :=
    h.awaits.timer_rings (m := ⟨d, 0, 0⟩) (Stage.atHand_of_waits h.waits) hFirst rfl
  let q : Progress β := { p with alarms := left, since := ⟨d, 0, 0⟩, aborted := true }
  have hRing : ring { p with alarms := left, since := ⟨d, 0, 0⟩ } ⟨d, 0, 0⟩ .deadline =
      (if p.script.heedsAbort then q.withdraw else q, [.aborted]) := rfl
  have hGoesOn : ∀ q' : Progress β, q'.WaitsFor none others →
      (if p.script.heedsAbort then q.withdraw else q) = q' →
      ∀ es c, Comes q' es c → Comes p (⟨d, .aborted⟩ :: es) c := by
    intro q' hq' hEq es c hComes
    rw [hEq] at hRing
    exact hComes.of_step hMoves (hStep.trans hRing) hq'.result?_eq_none
  by_cases hScript : p.script.heedsAbort
  · have hDeaf : p.stage.heeds = false := by simpa [hScript] using hHeeds
    have hStage : q.withdraw.stage = p.stage := stage_withdraw_of_waits h.waits hDeaf
    -- the body breaks, but nobody reads it
    have hIdle : ∀ value, p.stage ≠ .reading value := by
      intro value hReading
      simp [hReading, Stage.heeds] at hDeaf
    have hKeeps := keeps_withdraw q
    have hWaits : q.withdraw.WaitsFor none others := by
      constructor
      · rw [hStage]
        exact h.waits
      · intro value hReading
        exact absurd (hStage.symm.trans hReading) (hIdle value)
      · exact ⟨hKeeps.aborted, by rw [alarms_withdraw]; exact hLeft⟩
      · exact h.plain
      · exact h.ordered
    refine ⟨q.withdraw, ?_, hKeeps.exchange, hWaits, hGoesOn _ hWaits (if_pos hScript)⟩
    rw [hStage]
    exact Stage.awaited_congr hIdle _ _ _
  · have hWaits : q.WaitsFor none others :=
      ⟨h.waits, h.unread, ⟨rfl, hLeft⟩, h.plain, h.ordered⟩
    exact ⟨q, rfl, rfl, hWaits, hGoesOn _ hWaits (if_neg hScript)⟩

theorem WaitsFor.comes_untimed (h : p.WaitsFor none others) :
    Comes p [] (judged p.exchange none (p.stage.awaited p.body others)) := by
  induction others generalizing p with
  | nil => exact .stalls (h.awaits.next?_eq_none (Stage.atHand_of_waits h.waits)) h.result?_eq_none
  | cons a rest ih =>
    have hFirst : ∀ d ∈ (none : Option Nat), a.due < d := by simp
    rw [Stage.awaited]
    split
    · rename_i r hGives
      have hComes := h.comes_of_gives hFirst hGives
      rwa [h.awaits.aborted_eq] at hComes
    · rename_i hGives
      obtain ⟨q, hStage, hBody, hExchange, -, hRest, hGoesOn⟩ := h.goesOn hFirst hGives
      have hComes := ih hRest
      rw [hStage, hBody, hExchange] at hComes
      exact hGoesOn _ _ hComes

theorem WaitsFor.comes_of_late {d : Nat} (h : p.WaitsFor (some d) others)
    (hFirst : ∀ a ∈ others, d ≤ a.due) :
    let c := cutBy (some d) (p.script.heedsAbort && p.stage.heeds) (p.stage.awaited p.body others)
    Comes p (gaveUp (some d) c) (judged p.exchange (some d) c) := by
  have hLate : ∀ t r, p.stage.awaited p.body others = some (t, r) → d ≤ t := by
    intro t r hAwaited
    obtain ⟨a, ha, rfl⟩ := Stage.mem_of_awaited hAwaited
    exact hFirst a ha
  have hNotWithin : (p.stage.awaited p.body others).within d = false := by
    cases hAwaited : p.stage.awaited p.body others with
    | none => rfl
    | some had => simpa [Course.within] using hLate had.1 had.2 hAwaited
  cases hHeeds : p.script.heedsAbort && p.stage.heeds with
  | true =>
    obtain ⟨hScript, hStage⟩ := Bool.and_eq_true_iff.mp hHeeds
    have hComes := h.comes_of_heeds hFirst hScript hStage
    have hCut : cutBy (some d) true (p.stage.awaited p.body others) =
        some (d, .error .aborted) := Course.cutAt_of_late hNotWithin
    simpa [hCut, gaveUp, judged, Course.within, late] using hComes
  | false =>
    obtain ⟨q, hAwaited, hExchange, hWaits, hGoesOn⟩ := h.goesOn_untimed hFirst hHeeds
    have hComes := hGoesOn _ _ hWaits.comes_untimed
    rw [hAwaited, hExchange] at hComes
    have hSame : judged p.exchange none (p.stage.awaited p.body others) =
        judged p.exchange (some d) (p.stage.awaited p.body others) := by
      cases hHad : p.stage.awaited p.body others with
      | none => rfl
      | some had => simp [judged, late, hLate had.1 had.2 hHad]
    rw [hSame] at hComes
    simpa [cutBy, gaveUp, hNotWithin] using hComes

theorem WaitsFor.comes_timed {d : Nat} (h : p.WaitsFor (some d) others) :
    let c := cutBy (some d) (p.script.heedsAbort && p.stage.heeds) (p.stage.awaited p.body others)
    Comes p (gaveUp (some d) c) (judged p.exchange (some d) c) := by
  induction others generalizing p with
  | nil => exact h.comes_of_late (by simp)
  | cons a rest ih =>
    by_cases hBefore : a.due < d
    · have hFirst : ∀ e ∈ some d, a.due < e := by simpa using hBefore
      rw [Stage.awaited]
      split
      · rename_i r hGives
        have hComes := h.comes_of_gives hFirst hGives
        rw [h.awaits.aborted_eq] at hComes
        have hLate : late (some d) a.due = false := by simpa [late] using hBefore
        cases p.script.heedsAbort && p.stage.heeds <;>
          simpa [cutBy, Course.cutAt, Course.within, hBefore, gaveUp, judged, hLate] using hComes
      · rename_i hGives
        obtain ⟨q, hStage, hBody, hExchange, hScript, hRest, hGoesOn⟩ := h.goesOn hFirst hGives
        have hComes := ih hRest
        rw [hStage, hBody, hExchange, hScript] at hComes
        exact hGoesOn _ _ hComes
    · -- the agenda is in the order of time, so what follows is late as well
      apply h.comes_of_late
      intro b hb
      rcases List.mem_cons.mp hb with rfl | hb
      · exact Nat.le_of_not_lt hBefore
      · exact Nat.le_trans (Nat.le_of_not_lt hBefore) ((List.pairwise_cons.mp h.ordered).1 b hb)

/-- What is waited for is had, unless the timer runs out before. -/
theorem WaitsFor.comes (h : p.WaitsFor timer others) :
    let c := cutBy timer (p.script.heedsAbort && p.stage.heeds) (p.stage.awaited p.body others)
    Comes p (gaveUp timer c) (judged p.exchange timer c) := by
  cases timer with
  | none => exact h.comes_untimed
  | some d => exact h.comes_timed

end WaitsFor

end Enroll.Progress
