import Enroll.Proofs.Exchange.Waiting

/-!
# From the answer on

Once an answer is there the exchange goes on at that moment: a failure ends it, a response is
reacted to. `comes_of_answered` says what the reaction comes to, case by case, with a wait wherever
something takes its time; `comes_of_receive` is what follows for an answer.
-/

namespace Enroll

theorem Answer.items_ok (r : Response) : Answer.items (.ok r) = r.body.items := by
  obtain ⟨status, body⟩ := r
  cases body <;> rfl

namespace BodyState

theorem course_of_read? {b : BodyState} {r : Except Failure Text} (hRead : b.read? = some r)
    (now : Nat) (items : List Item) : b.course now items = some (now, r) := by
  cases items with
  | nil => rw [course, hRead, Option.map_some]
  | cons i rest => rw [course, hRead]

/-- Whether it shows that a body is read or given up does not change as things happen on it. -/
theorem shows_foldl_hear (happenings : List Item) (b : BodyState) :
    (happenings.foldl (fun b i => b.hear i.happening) b).showsGivenUp = b.showsGivenUp ∧
      Progress.readEffects (happenings.foldl (fun b i => b.hear i.happening) b) =
        Progress.readEffects b := by
  induction happenings generalizing b with
  | nil => exact ⟨rfl, rfl⟩
  | cons i rest ih =>
    have hOne : (b.hear i.happening).showsGivenUp = b.showsGivenUp ∧
        Progress.readEffects (b.hear i.happening) = Progress.readEffects b := by
      cases b with
      | «open» heard release => cases i.happening <;> exact ⟨rfl, rfl⟩
      | _ => exact ⟨rfl, rfl⟩
    obtain ⟨hShows, hReads⟩ := ih (b.hear i.happening)
    exact ⟨hShows.trans hOne.1, hReads.trans hOne.2⟩

end BodyState

/-! ## What the wait for a reaction comes to -/

def Item.alarm (m : Moment) (i : Item) : Alarm := ⟨m.now + i.delay, m.turn, .item i.happening⟩

/-- Where an exchange stands that has given up the body. -/
def Release.stage {β : Type} (value : β) : Release → Stage β
  | .granted => .concluding (.ok value)
  | .refused f => .concluding (.error f)
  | .pending => .discarding value

namespace Stage

variable {β : Type}

theorem awaited_reading {value : Text → β} {m : Moment} {b : BodyState}
    (hUnread : b.read? = none) (now : Nat) (items : List Item) :
    (Stage.reading value).awaited b (items.map (Item.alarm m)) =
      Course.later m.now (Course.onValue (fun r => r.map value) (b.course now items)) := by
  induction items generalizing b now with
  | nil => simp [awaited, BodyState.course, hUnread, Course.onValue, Course.later]
  | cons i rest ih =>
    rw [List.map_cons, awaited, BodyState.course, hUnread]
    cases hRead : (b.hear i.happening).read? with
    | none =>
      have hRest := ih hRead i.delay
      simpa [gives, Item.alarm, hRead, BodyState.rung] using hRest
    | some r =>
      rw [BodyState.course_of_read? hRead]
      simp [gives, Item.alarm, hRead, Course.onValue, Course.later]

theorem awaited_pausing {r : Except Failure β} {t : Nat} {alarms : List Alarm}
    (hPause : ∃ a ∈ alarms, a.purpose = .pause)
    (hOne : ∀ a ∈ alarms, a.purpose = .pause → a.due = t) (b : BodyState) :
    (Stage.pausing r).awaited b alarms = some (t, r) := by
  induction alarms generalizing b with
  | nil => simp at hPause
  | cons a rest ih =>
    rw [awaited]
    by_cases hPurpose : a.purpose = .pause
    · rw [hPurpose, ← hOne a List.mem_cons_self hPurpose]
      rfl
    · have hRest : ∃ c ∈ rest, c.purpose = .pause := by
        obtain ⟨c, hc, hFound⟩ := hPause
        rcases List.mem_cons.mp hc with rfl | hc
        · exact absurd hFound hPurpose
        · exact ⟨c, hc, hFound⟩
      have hGives : (Stage.pausing r).gives b a.purpose = none := by
        cases hKind : a.purpose <;> simp_all [gives]
      rw [hGives]
      exact ih hRest (fun c hc => hOne c (List.mem_cons_of_mem _ hc)) _

theorem awaited_eq_none {stage : Stage β} (hNothing : ∀ b purpose, stage.gives b purpose = none)
    (b : BodyState) (alarms : List Alarm) : stage.awaited b alarms = none := by
  induction alarms generalizing b with
  | nil => rfl
  | cons a rest ih =>
    rw [awaited, hNothing]
    exact ih _

end Stage

namespace Progress

variable {β : Type}

open Running (shown)

/-! ## What is at hand -/

theorem late_of_early {timer : Option Nat} {t : Nat} (hEarly : ∀ d ∈ timer, t < d) :
    late timer t = timer.isNone := by
  cases timer with
  | none => rfl
  | some d => simpa [late] using hEarly d rfl

theorem had_early {x : Exchange β} {timer : Option Nat} {t : Nat} (hEarly : ∀ d ∈ timer, t < d)
    (heeds : Bool) (r : Except Failure β) :
    let c := cutBy timer heeds (some (t, r))
    gaveUp timer c = [] ∧
      judged x timer c = some (t, r.mapError (x.classify timer.isNone)) := by
  have hCut : cutBy timer heeds (some (t, r)) = some (t, r) := by
    cases timer with
    | none => rfl
    | some d =>
      have hWithin : Course.within d (some (t, r)) := by simpa [Course.within] using hEarly d rfl
      cases heeds with
      | true => exact Course.cutAt_of_within hWithin
      | false => rfl
  rw [hCut]
  constructor
  · cases timer with
    | none => rfl
    | some d => simpa [gaveUp, Course.within] using hEarly d rfl
  · simp [judged, late_of_early hEarly]

/-! ## Taking up the body -/

theorem readBody_of_some {p : Progress β} {value : Text → β} {r : Except Failure Text}
    (hRead : p.body.read? = some r) :
    p.readBody value = p.concludeAfter p.body.readRounds (r.map value) := by
  cases hBody : p.body with
  | «open» heard release => simp [hBody, BodyState.read?] at hRead
  | _ =>
    obtain rfl : _ = r := by simpa [hBody, BodyState.read?] using hRead
    simp only [readBody, hBody, Except.map]

theorem readBody_of_none {p : Progress β} {value : Text → β} (hUnread : p.body.read? = none) :
    p.readBody value = { p with stage := .reading value } := by
  obtain ⟨heard, release, hBody⟩ := BodyState.read?_eq_none_iff.mp hUnread
  simp only [readBody, hBody]

theorem stage_release (p : Progress β) (value : β) (r : Release) :
    (p.release value r).stage = r.stage value := by
  cases r <;> rfl

theorem discardBody_eq (p : Progress β) (value : β) :
    (p.discardBody value).1.stage = p.body.giveUp.stage value ∧
      (p.discardBody value).2 = if p.body.showsGivenUp then [.cancelled] else [] := by
  cases hBody : p.body with
  | ended heard release =>
    cases heard <;> simp only [discardBody, hBody, BodyState.giveUp, stage_release] <;>
      exact ⟨trivial, rfl⟩
  | absent | silent | broken f =>
    simp only [discardBody, hBody]
    exact ⟨rfl, rfl⟩
  | _ =>
    simp only [discardBody, hBody, BodyState.giveUp, stage_release]
    exact ⟨trivial, rfl⟩

/-! ## The reaction -/

/-- A response has just come, and what it brings is on the agenda. -/
structure Answered (p : Progress β) (timer : Option Nat) (m : Moment) (r : Response) : Prop where
  stage : p.stage = .answered (.ok r.status)
  body : p.body = r.body.atOnce
  since : p.since.now = m.now
  awaits : p.Awaits timer (r.body.later.map (Item.alarm m))
  early : ∀ d ∈ timer, m.now < d

section Answered

variable {p : Progress β} {timer : Option Nat} {m : Moment} {r : Response}

theorem ordered_later (m : Moment) (b : Body) :
    (b.later.map (Item.alarm m)).Pairwise NotAfter := by
  have hTrans : ∀ i j k : Item, decide (i.delay ≤ j.delay) → decide (j.delay ≤ k.delay) →
      decide (i.delay ≤ k.delay) := by
    simp only [decide_eq_true_iff]
    omega
  have hTotal : ∀ i j : Item, decide (i.delay ≤ j.delay) || decide (j.delay ≤ i.delay) := by
    simp only [Bool.or_eq_true, decide_eq_true_iff]
    omega
  rw [List.pairwise_map]
  refine (List.pairwise_mergeSort hTrans hTotal _).imp fun {i j} hDelay => ?_
  exact Nat.add_le_add_left (of_decide_eq_true hDelay) m.now

theorem plain_later (m : Moment) (b : Body) :
    ∀ a ∈ b.later.map (Item.alarm m), a.purpose.isPlain := by
  intro a ha
  obtain ⟨i, -, rfl⟩ := List.mem_map.mp ha
  rfl

theorem Answered.movesAt (h : p.Answered timer m r) : p.MovesAt p.since :=
  movesAt_since (by simp [h.stage, Stage.atHand])

theorem Answered.step_eq (h : p.Answered timer m r) :
    p.step p.since = p.react p.since (p.exchange.react r.status) := step_of_answered h.stage

theorem Answered.comes_of_concluding (h : p.Answered timer m r) {q : Progress β}
    {effects : List Effect} {result : Except Failure β}
    (hReact : p.react p.since (p.exchange.react r.status) = (q, effects))
    (hStage : q.stage = .concluding result) (hTakes : TakesUp p q) (heeds : Bool) :
    let c := cutBy timer heeds (some (m.now, result))
    Comes p (effects.map (Event.mk m.now) ++ gaveUp timer c) (judged p.exchange timer c) := by
  obtain ⟨hNone, hJudged⟩ := had_early (x := p.exchange) h.early heeds result
  have hComes := Progress.comes_of_concluding hStage
  rw [hTakes.exchange, hTakes.aborted, hTakes.since, h.since, h.awaits.aborted_eq] at hComes
  have hOpen : q.result? = none := by simp [result?, hStage]
  have hAll := hComes.of_step h.movesAt (h.step_eq.trans hReact) hOpen
  rw [shown, h.since] at hAll
  dsimp only
  rw [hNone, hJudged]
  exact hAll

theorem Answered.comes_of_waits (h : p.Answered timer m r) {q : Progress β}
    {effects : List Effect} {others : List Alarm}
    (hReact : p.react p.since (p.exchange.react r.status) = (q, effects))
    (hExchange : q.exchange = p.exchange) (hScript : q.script = p.script)
    (hWaits : q.WaitsFor timer others) :
    let c := cutBy timer (p.script.heedsAbort && q.stage.heeds) (q.stage.awaited q.body others)
    Comes p (effects.map (Event.mk m.now) ++ gaveUp timer c) (judged p.exchange timer c) := by
  have hComes := hWaits.comes
  rw [hExchange, hScript] at hComes
  have hAll := hComes.of_step h.movesAt (h.step_eq.trans hReact) hWaits.result?_eq_none
  rwa [shown, h.since] at hAll

/-- A wait that sets no timer has what comes of the body on its agenda. -/
theorem Answered.waitsFor (h : p.Answered timer m r) {q : Progress β} (hWaits : q.stage.waits)
    (hUnread : ∀ value, q.stage = .reading value → q.body.read? = none)
    (hAborted : q.aborted = p.aborted) (hAlarms : q.alarms = p.alarms) :
    q.WaitsFor timer (r.body.later.map (Item.alarm m)) where
  waits := hWaits
  unread := hUnread
  awaits := h.awaits.congr hAborted hAlarms
  plain := plain_later m r.body
  ordered := ordered_later m r.body

theorem Answered.comes_reading (h : p.Answered timer m r) {value : Text → β}
    (hReaction : p.exchange.react r.status = .readBody value) :
    let c := cutBy timer p.script.heedsAbort
      (Course.later m.now ((Reaction.readBody value).course r.body))
    Comes p (((Reaction.readBody value).touch r.body).map (Event.mk m.now) ++ gaveUp timer c)
      (judged p.exchange timer c) := by
  have hEffects : readEffects p.body = (Reaction.readBody value).touch r.body := by
    rw [h.body]
    exact (BodyState.shows_foldl_hear _ _).2
  have hReact : p.react p.since (p.exchange.react r.status) =
      (p.readBody value, (Reaction.readBody value).touch r.body) := by
    rw [hReaction, ← hEffects]
    rfl
  have hTakes := takesUp_readBody p value
  cases hRead : p.body.read? with
  | some text =>
    have hText : r.body.text = some (0, text) :=
      BodyState.course_of_read? (h.body ▸ hRead) 0 r.body.later
    have hStage : (p.readBody value).stage = .concluding (text.map value) := by
      rw [readBody_of_some hRead]
      rfl
    have hComes := h.comes_of_concluding hReact hStage hTakes p.script.heedsAbort
    simpa [Reaction.course, hText, Course.onValue, Course.later] using hComes
  | none =>
    have hStage : (p.readBody value).stage = .reading value := by rw [readBody_of_none hRead]
    have hBody : (p.readBody value).body = r.body.atOnce := by
      rw [readBody_of_none hRead]
      exact h.body
    have hUnread : r.body.atOnce.read? = none := h.body ▸ hRead
    have hWaits : (p.readBody value).WaitsFor timer (r.body.later.map (Item.alarm m)) := by
      apply h.waitsFor _ _ hTakes.aborted hTakes.alarms
      · simp [hStage, Stage.waits]
      · intro _ _
        rwa [hBody]
    have hComes := h.comes_of_waits hReact hTakes.exchange hTakes.script hWaits
    rw [hStage, hBody, Stage.awaited_reading hUnread 0, Stage.heeds, Bool.and_true] at hComes
    exact hComes

theorem Answered.comes_discarding (h : p.Answered timer m r) {value : β}
    (hReaction : p.exchange.react r.status = .discardBody value) :
    let c := cutBy timer p.script.heedsAbort
      (Course.later m.now ((Reaction.discardBody value).course r.body))
    Comes p (((Reaction.discardBody value).touch r.body).map (Event.mk m.now) ++ gaveUp timer c)
      (judged p.exchange timer c) := by
  obtain ⟨hStage, hEffects⟩ := discardBody_eq p value
  have hReact : p.react p.since (p.exchange.react r.status) =
      ((p.discardBody value).1, (Reaction.discardBody value).touch r.body) := by
    have hShows : r.body.atOnce.showsGivenUp = r.body.opened.showsGivenUp :=
      (BodyState.shows_foldl_hear _ _).1
    rw [hReaction, Reaction.touch, ← hShows, ← h.body, ← hEffects]
    rfl
  have hTakes := takesUp_discardBody p value
  rw [h.body] at hStage
  dsimp only [Reaction.course]
  cases hRelease : r.body.atOnce.giveUp with
  | granted =>
    rw [hRelease] at hStage
    exact h.comes_of_concluding hReact hStage hTakes p.script.heedsAbort
  | refused f =>
    rw [hRelease] at hStage
    exact h.comes_of_concluding hReact hStage hTakes p.script.heedsAbort
  | pending =>
    have hPending : (p.discardBody value).1.stage = .discarding value := by
      rw [hStage, hRelease]
      rfl
    have hWaits : (p.discardBody value).1.WaitsFor timer (r.body.later.map (Item.alarm m)) := by
      apply h.waitsFor _ _ hTakes.aborted hTakes.alarms
      · simp [hPending, Stage.waits]
      · intro other hReading
        simp [hPending] at hReading
    have hComes := h.comes_of_waits hReact hTakes.exchange hTakes.script hWaits
    rw [hPending, Stage.awaited_eq_none (fun _ _ => rfl), Stage.heeds, Bool.and_true] at hComes
    exact hComes

theorem Answered.comes_pausing (h : p.Answered timer m r) {delay : Nat}
    {result : Except Failure β} (hReaction : p.exchange.react r.status = .pause delay result) :
    let c := cutBy timer false (some (m.now + delay, result))
    Comes p (gaveUp timer c) (judged p.exchange timer c) := by
  cases delay with
  | zero =>
    have hReact : p.react p.since (p.exchange.react r.status) = (p.concludeAfter 1 result, []) := by
      rw [hReaction]
      rfl
    exact h.comes_of_concluding hReact rfl (takesUp_concludeAfter p 1 result) false
  | succ n =>
    let pause : Alarm := ⟨p.since.now + (n + 1), p.since.turn, .pause⟩
    let q : Progress β := { p with stage := .pausing result, alarms := p.alarms ++ [pause] }
    have hReact : p.react p.since (p.exchange.react r.status) = (q, []) := by
      rw [hReaction]
      rfl
    -- the pause joins what is still to come of the body, wherever its time puts it
    obtain ⟨others, hAwaits, hPerm, hOrdered, -⟩ :=
      h.awaits.add (q := q) rfl (show q.alarms = p.alarms ++ [pause] from rfl)
    have hWaits : q.WaitsFor timer others := by
      constructor
      · rfl
      · intro value hReading
        simp [q] at hReading
      · exact hAwaits
      · intro a ha
        rcases List.mem_append.mp (hPerm.mem_iff.mp ha) with ha | ha
        · exact plain_later m r.body a ha
        · obtain rfl := List.mem_singleton.mp ha
          rfl
      · exact hOrdered
    have hAwaited : q.stage.awaited q.body others = some (m.now + (n + 1), result) := by
      rw [← h.since]
      apply Stage.awaited_pausing
      · exact ⟨pause, hPerm.mem_iff.mpr (by simp), rfl⟩
      · intro a ha hPurpose
        rcases List.mem_append.mp (hPerm.mem_iff.mp ha) with ha | ha
        · obtain ⟨i, -, rfl⟩ := List.mem_map.mp ha
          simp [Item.alarm] at hPurpose
        · obtain rfl := List.mem_singleton.mp ha
          rfl
    have hComes := h.comes_of_waits hReact rfl rfl hWaits
    rw [hAwaited, show q.stage.heeds = false from rfl, Bool.and_false] at hComes
    exact hComes

theorem Answered.comes_stuck (h : p.Answered timer m r)
    (hReaction : p.exchange.react r.status = .never) :
    let c := cutBy timer false none
    Comes p (gaveUp timer c) (judged p.exchange timer c) := by
  let q : Progress β := { p with stage := .stuck }
  have hReact : p.react p.since (p.exchange.react r.status) = (q, []) := by
    rw [hReaction]
    rfl
  have hWaits : q.WaitsFor timer (r.body.later.map (Item.alarm m)) := by
    refine h.waitsFor (q := q) ?_ ?_ rfl rfl
    · rfl
    · intro value hReading
      simp [q] at hReading
  have hComes := h.comes_of_waits hReact rfl rfl hWaits
  rw [Stage.awaited_eq_none (fun _ _ => rfl), show q.stage.heeds = false from rfl,
    Bool.and_false] at hComes
  exact hComes

theorem Answered.comes_settled (h : p.Answered timer m r) {result : Except Failure β}
    (hReaction : p.exchange.react r.status = .settle result) :
    let c := cutBy timer false (some (m.now, result))
    Comes p (gaveUp timer c) (judged p.exchange timer c) := by
  have hReact : p.step p.since = (p.conclude result, []) := by
    rw [h.step_eq, hReaction]
    rfl
  obtain ⟨hNone, hJudged⟩ := had_early (x := p.exchange) h.early false result
  have hResult : (p.step p.since).1.result? =
      some (result.mapError (p.exchange.classify timer.isNone)) := by
    rw [hReact, ← h.awaits.aborted_eq]
    rfl
  have hComes := Comes.ends p.since h.movesAt hResult
  rw [hReact, h.since] at hComes
  dsimp only
  rw [hNone, hJudged]
  exact hComes

/-- What the reaction to a response comes to. -/
theorem Answered.comes (h : p.Answered timer m r) :
    let reaction := p.exchange.react r.status
    let c := cutBy timer (p.script.heedsAbort && reaction.heeds)
      (Course.later m.now (reaction.course r.body))
    Comes p ((reaction.touch r.body).map (Event.mk m.now) ++ gaveUp timer c)
      (judged p.exchange timer c) := by
  cases hReaction : p.exchange.react r.status with
  | settle result =>
    dsimp only [Reaction.heeds]
    rw [Bool.and_false]
    exact h.comes_settled hReaction
  | readBody value =>
    dsimp only [Reaction.heeds]
    rw [Bool.and_true]
    exact h.comes_reading hReaction
  | discardBody value =>
    dsimp only [Reaction.heeds]
    rw [Bool.and_true]
    exact h.comes_discarding hReaction
  | pause delay result =>
    dsimp only [Reaction.heeds]
    rw [Bool.and_false]
    exact h.comes_pausing hReaction
  | never =>
    dsimp only [Reaction.heeds]
    rw [Bool.and_false]
    exact h.comes_stuck hReaction

end Answered

end Progress

end Enroll
