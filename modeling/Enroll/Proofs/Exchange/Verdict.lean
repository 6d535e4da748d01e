import Enroll.Proofs.Exchange.Reacting

/-!
# The verdict of an exchange

An exchange that starts comes to its verdict, and shows what `Exchange.seen` says (`comes_start`).
Which of two races decides is told apart here: whether the answer is there before the timer runs
out, and, where it is not, whether the service takes notice of the timer.
-/

namespace Enroll

namespace Exchange

variable {β : Type}

theorem delay_pos (x : Exchange β) : 0 < x.delay := (timerDelay_bounds x.timeout).1

/-- What an answer comes to that is there at a time, by the clock. -/
def outcomeAt (x : Exchange β) (s : Script) (timer : Option Nat) (now : Nat) :
    Answer → Course (Except Failure β)
  | .error f => some (now, .error f)
  | .ok r =>
    Progress.cutBy timer (s.heedsAbort && (x.react r.status).heeds)
      (Course.later now ((x.react r.status).course r.body))

def touchedAt (x : Exchange β) (now : Nat) : Answer → List Event
  | .error _ => []
  | .ok r => ((x.react r.status).touch r.body).map (Event.mk now)

end Exchange

namespace Progress

variable {β : Type}

open Running (shown)

/-! ## An answer comes -/

theorem flow_of_idle {p : Progress β} (hIdle : ∀ value, p.stage ≠ .reading value) (m : Moment)
    (items : List Item) :
    (p.flow m items).stage = p.stage ∧
      (p.flow m items).body =
        (items.filter fun i => i.delay == 0).foldl (fun b i => b.hear i.happening) p.body := by
  fun_induction flow p m items with
  | case1 p => exact ⟨rfl, rfl⟩
  | case2 p h rest ih =>
    rw [happen_of_idle hIdle] at ih ⊢
    obtain ⟨hStage, hBody⟩ := ih hIdle
    exact ⟨hStage, by simpa using hBody⟩
  | case3 p n h rest ih =>
    obtain ⟨hStage, hBody⟩ := ih hIdle
    exact ⟨hStage, by simpa [setAlarm] using hBody⟩

theorem receive_ok {p : Progress β} (hStage : p.stage = .connecting) (m : Moment) (r : Response) :
    (p.receive m (.ok r)).stage = .answered (.ok r.status) ∧
      (p.receive m (.ok r)).body = r.body.atOnce := by
  obtain ⟨status, body⟩ := r
  have hAnswered : (p.answered 1 (.ok status)).stage = .answered (.ok status) := by
    simp only [answered, hStage]
  cases body with
  | stream items release =>
    have hIdle : ∀ value, (p.answered 1 (.ok status)).stage ≠ .reading value := by simp [hAnswered]
    obtain ⟨hKept, hBody⟩ := flow_of_idle
      (p := { p.answered 1 (.ok status) with body := .open [] release }) hIdle m items
    exact ⟨hKept.trans hAnswered, hBody⟩
  | _ => exact ⟨hAnswered, rfl⟩

theorem agenda_itemAlarms (m : Moment) (b : Body) :
    agenda (itemAlarms m b.items) = b.later.map (Item.alarm m) := by
  have hOrder : ∀ i ∈ b.items.filter fun i => i.delay != 0,
      ∀ j ∈ b.items.filter fun i => i.delay != 0,
        decide (i.delay ≤ j.delay) = decide (NotAfter (i.alarm m) (j.alarm m)) := by
    intro i _ j _
    simp [Item.alarm, NotAfter]
  exact (List.map_mergeSort hOrder).symm

theorem comes_of_failed {p : Progress β} {timer : Option Nat} {now : Nat} {f : Failure}
    (hStage : p.stage = .answered (.error f)) (hSince : p.since.now = now)
    (hAborted : p.aborted = timer.isNone) (hEarly : ∀ d ∈ timer, now < d) :
    let c := p.exchange.outcomeAt p.script timer now (.error f)
    Comes p (p.exchange.touchedAt now (.error f) ++ gaveUp timer c)
      (judged p.exchange timer c) := by
  obtain ⟨hNone, hJudged⟩ := had_early (x := p.exchange) hEarly false (.error f)
  have hComes := comes_of_refused hStage
  rw [hSince, hAborted] at hComes
  have hCut : cutBy timer false (some (now, .error f)) =
      p.exchange.outcomeAt p.script timer now (.error f) := by cases timer <;> rfl
  rw [hCut] at hNone hJudged
  dsimp only
  rw [hNone, hJudged]
  exact hComes

theorem comes_of_receive {p : Progress β} {timer : Option Nat} {m : Moment}
    (hStage : p.stage = .connecting) (hSince : p.since.now = m.now)
    (hAwaits : p.Awaits timer []) (hEarly : ∀ d ∈ timer, m.now < d) (answer : Answer) :
    let c := p.exchange.outcomeAt p.script timer m.now answer
    Comes (p.receive m answer) (p.exchange.touchedAt m.now answer ++ gaveUp timer c)
      (judged p.exchange timer c) := by
  have hKeeps := keeps_receive p m answer
  cases answer with
  | error f =>
    have hRefused : (p.receive m (.error f)).stage = .answered (.error f) := by
      simp only [receive, answered, hStage]
    have hComes := comes_of_failed hRefused (by rw [hKeeps.since, hSince])
      (hKeeps.aborted.trans hAwaits.aborted_eq) hEarly
    rw [hKeeps.exchange, hKeeps.script] at hComes
    exact hComes
  | ok r =>
    obtain ⟨hAnswered, hBody⟩ := receive_ok hStage m r
    obtain ⟨more, hMore, -, -, hNil⟩ := hAwaits.add hKeeps.aborted (alarms_receive p m (.ok r))
    rw [hNil rfl, Answer.items_ok, agenda_itemAlarms] at hMore
    have hAll : (p.receive m (.ok r)).Answered timer m r :=
      ⟨hAnswered, hBody, by rw [hKeeps.since, hSince], hMore, hEarly⟩
    have hComes := hAll.comes
    rw [hKeeps.exchange, hKeeps.script] at hComes
    exact hComes

theorem result?_of_connecting {p : Progress β} (hStage : p.stage = .connecting) :
    p.result? = none := by
  simp [result?, hStage]

theorem comes_of_connecting {p : Progress β} {timer : Option Nat} {a : Alarm} {answer : Answer}
    (hStage : p.stage = .connecting) (hAwaits : p.Awaits timer [a])
    (hPurpose : a.purpose = .answer answer) (hEarly : ∀ d ∈ timer, a.due < d) :
    let c := p.exchange.outcomeAt p.script timer a.due answer
    Comes p (p.exchange.touchedAt a.due answer ++ gaveUp timer c)
      (judged p.exchange timer c) := by
  have hHand : p.stage.atHand = false := by simp [hStage, Stage.atHand]
  obtain ⟨hMoves, left, hStep, hRest⟩ := hAwaits.rings (m := ⟨a.due, 0, 0⟩) hHand hEarly rfl
  let q : Progress β := { p with alarms := left, since := ⟨a.due, 0, 0⟩ }
  have hRing : ring q ⟨a.due, 0, 0⟩ a.purpose = (q.receive ⟨a.due, 0, 0⟩ answer, []) := by
    rw [hPurpose]
    rfl
  have hOpen : (q.receive ⟨a.due, 0, 0⟩ answer).result? = none :=
    (keeps_receive q _ answer).result?_eq_none (result?_of_connecting hStage)
  have hComes := comes_of_receive (p := q) (m := ⟨a.due, 0, 0⟩) hStage rfl hRest hEarly answer
  exact hComes.of_step hMoves (hStep.trans hRing) hOpen

/-- The timer runs out before the answer is there, and the service takes notice. -/
theorem comes_of_given_up {p : Progress β} {d : Nat} {others : List Alarm}
    (hStage : p.stage = .connecting) (hAwaits : p.Awaits (some d) others)
    (hFirst : ∀ a ∈ others, d ≤ a.due) (hScript : p.script.heedsAbort) :
    Comes p [⟨d, .aborted⟩] (some (d, .error (p.exchange.classify true p.script.onAbort))) := by
  have hHand : p.stage.atHand = false := by simp [hStage, Stage.atHand]
  obtain ⟨hMoves, left, hStep, -⟩ := hAwaits.timer_rings (m := ⟨d, 0, 0⟩) hHand hFirst rfl
  let q : Progress β :=
    { p with alarms := left, since := ⟨d, 0, 0⟩, aborted := true, wait := 2,
             stage := .answered (.error p.script.onAbort) }
  have hRing : ring { p with alarms := left, since := ⟨d, 0, 0⟩ } ⟨d, 0, 0⟩ .deadline =
      (q, [.aborted]) := by
    simp only [ring, hScript, if_true, withdraw, answered, hStage, q]
  have hComes := comes_of_refused (p := q) rfl
  exact hComes.of_step hMoves (hStep.trans hRing) rfl

/-- The timer runs out before the answer is there, and nobody takes notice. -/
theorem goesOn_of_deaf {p : Progress β} {d : Nat} {others : List Alarm}
    (hStage : p.stage = .connecting) (hAwaits : p.Awaits (some d) others)
    (hFirst : ∀ a ∈ others, d ≤ a.due) (hScript : p.script.heedsAbort = false) :
    ∃ q : Progress β, q.stage = .connecting ∧ q.Awaits none others ∧ q.exchange = p.exchange ∧
      q.script = p.script ∧ ∀ es c, Comes q es c → Comes p (⟨d, .aborted⟩ :: es) c := by
  have hHand : p.stage.atHand = false := by simp [hStage, Stage.atHand]
  obtain ⟨hMoves, left, hStep, hLeft⟩ := hAwaits.timer_rings (m := ⟨d, 0, 0⟩) hHand hFirst rfl
  let q : Progress β := { p with alarms := left, since := ⟨d, 0, 0⟩, aborted := true }
  have hRing : ring { p with alarms := left, since := ⟨d, 0, 0⟩ } ⟨d, 0, 0⟩ .deadline =
      (q, [.aborted]) := by
    simp only [ring, hScript, Bool.false_eq_true, if_false, q]
  refine ⟨q, hStage, ⟨rfl, hLeft⟩, rfl, rfl, fun es c hComes => ?_⟩
  exact hComes.of_step hMoves (hStep.trans hRing) (result?_of_connecting hStage)

end Progress

/-! ## The verdict by the clock -/

namespace Exchange

variable {β : Type} {x : Exchange β} {s : Script} {t : Nat} {answer : Answer}

theorem gaveUp_later (x : Exchange β) (s : Script) (now : Nat) :
    Progress.gaveUp (some (now + x.delay)) (Course.later now (x.attempt s)) = x.gaveUp s now := by
  rw [Progress.gaveUp, Course.within_later, gaveUp]

theorem judged_later (x : Exchange β) (s : Script) (now : Nat) :
    Progress.judged x (some (now + x.delay)) (Course.later now (x.attempt s)) =
      Course.later now (x.verdict s) := by
  cases hAttempt : x.attempt s with
  | none => simp [verdict, hAttempt, Progress.judged, Course.later]
  | some had => simp [verdict, hAttempt, Progress.judged, Progress.late, Course.later]

theorem attempt_of_early (hArrival : s.arrival x.delay = some (t, answer)) (now : Nat) :
    Course.later now (x.attempt s) = x.outcomeAt s (some (now + x.delay)) (now + t) answer := by
  cases answer with
  | error f => simp [attempt, hArrival, outcomeAt, Course.later]
  | ok r =>
    simp only [attempt, hArrival, outcomeAt, reacted, Progress.cutBy]
    split
    · rw [Course.later_cutAt, Course.later_later]
    · rw [Course.later_later]

theorem seen_of_early (hArrival : s.arrival x.delay = some (t, answer)) (hEarly : t < x.delay)
    (now : Nat) :
    x.seen s now = x.touchedAt (now + t) answer ++ x.gaveUp s now := by
  have hWithin : Course.within x.delay (some (t, answer)) := by simpa [Course.within] using hEarly
  have hTouched : x.touched s now = x.touchedAt (now + t) answer := by
    cases answer <;> simp [touched, hArrival, touchedAt]
  rw [seen, hArrival, if_pos hWithin, hTouched]

/-- What is there only after the timer has run out, and did not take notice of it. -/
theorem attempt_of_late (hArrival : s.arrival x.delay = some (t, answer))
    (hLate : x.delay ≤ t) (hScript : s.heedsAbort = false) (now : Nat) :
    Course.later now (x.attempt s) = x.outcomeAt s none (now + t) answer ∧
      (x.attempt s).within x.delay = false := by
  cases answer with
  | error f =>
    have hAttempt : x.attempt s = some (t, .error f) := by simp [attempt, hArrival]
    rw [hAttempt]
    exact ⟨rfl, by simpa [Course.within] using hLate⟩
  | ok r =>
    have hAttempt : x.attempt s = Course.later t ((x.react r.status).course r.body) := by
      simp [attempt, hArrival, reacted, hScript]
    rw [hAttempt]
    constructor
    · exact Course.later_later now t _
    · cases (x.react r.status).course r.body with
      | none => rfl
      | some had =>
        simp only [Course.later, Option.map_some, Course.within, decide_eq_false_iff_not]
        omega

theorem verdict_of_late (hWithin : (x.attempt s).within x.delay = false) (now : Nat) :
    Progress.judged x none (Course.later now (x.attempt s)) = Course.later now (x.verdict s) := by
  cases hAttempt : x.attempt s with
  | none => simp [verdict, hAttempt, Progress.judged, Course.later]
  | some had =>
    have hLate : x.delay ≤ had.1 := by simpa [hAttempt, Course.within] using hWithin
    simp [verdict, hAttempt, Progress.judged, Progress.late, Course.later, hLate]

theorem seen_of_late (hArrival : s.arrival x.delay = some (t, answer)) (hLate : x.delay ≤ t)
    (hWithin : (x.attempt s).within x.delay = false) (now : Nat) :
    x.seen s now = ⟨now + x.delay, .aborted⟩ :: x.touchedAt (now + t) answer := by
  have hNotWithin : ¬ Course.within x.delay (some (t, answer)) := by
    simpa [Course.within] using hLate
  have hTouched : x.touched s now = x.touchedAt (now + t) answer := by
    cases answer <;> simp [touched, hArrival, touchedAt]
  rw [seen, hArrival, if_neg hNotWithin, hTouched, gaveUp, hWithin]
  rfl

theorem verdict_of_given_up {f : Failure} (hArrival : s.arrival x.delay = some (x.delay, .error f))
    (now : Nat) :
    Course.later now (x.verdict s) = some (now + x.delay, .error (x.classify true f)) ∧
      x.seen s now = [⟨now + x.delay, .aborted⟩] := by
  have hAttempt : x.attempt s = some (x.delay, .error f) := by simp [attempt, hArrival]
  have hWithin : (x.attempt s).within x.delay = false := by simp [hAttempt, Course.within]
  constructor
  · simp [verdict, hAttempt, Course.later]
  · exact seen_of_late hArrival (Nat.le_refl _) hWithin now

theorem verdict_of_nothing (hArrival : s.arrival x.delay = none) (now : Nat) :
    Course.later now (x.verdict s) = none ∧ x.seen s now = [⟨now + x.delay, .aborted⟩] := by
  have hAttempt : x.attempt s = none := by simp [attempt, hArrival]
  constructor
  · simp [verdict, hAttempt, Course.later]
  · simp [seen, gaveUp, touched, hArrival, hAttempt, Course.within]

theorem arrival_of_early (hReply : s.reply.course = some (t, answer)) (hEarly : t < x.delay) :
    s.arrival x.delay = some (t, answer) := by
  have hWithin : s.reply.course.within x.delay := by
    rw [hReply]
    simpa [Course.within] using hEarly
  rw [Script.arrival, Course.cutAt_of_within hWithin, hReply, ite_self]

theorem arrival_of_heeds (hLate : s.reply.course.within x.delay = false)
    (hScript : s.heedsAbort) : s.arrival x.delay = some (x.delay, .error s.onAbort) := by
  rw [Script.arrival, if_pos hScript, Course.cutAt_of_late hLate]

theorem arrival_of_deaf (hScript : s.heedsAbort = false) : s.arrival x.delay = s.reply.course := by
  rw [Script.arrival, hScript]
  rfl

end Exchange

/-! ## An exchange that starts -/

namespace Progress

variable {β : Type} {x : Exchange β} {s : Script} {m : Moment}

theorem awaits_begun (x : Exchange β) (s : Script) (m : Moment) :
    (begun x s m).Awaits (some (m.now + x.delay)) [] := ⟨rfl, m.turn, [], rfl, agenda_nil⟩

theorem early_begun {t : Nat} (hEarly : t < x.delay) :
    ∀ d ∈ some (m.now + x.delay), m.now + t < d := by
  intro d hd
  obtain rfl := Option.some.inj hd
  omega

theorem comes_of_early {p : Progress β} {t : Nat} {answer : Answer}
    (hReply : s.reply.course = some (t, answer)) (hEarly : t < x.delay)
    (hComes : let c := x.outcomeAt s (some (m.now + x.delay)) (m.now + t) answer
      Comes p (x.touchedAt (m.now + t) answer ++ gaveUp (some (m.now + x.delay)) c)
        (judged x (some (m.now + x.delay)) c)) :
    Comes p (x.seen s m.now) (Course.later m.now (x.verdict s)) := by
  have hArrival := Exchange.arrival_of_early hReply hEarly
  rw [Exchange.seen_of_early hArrival hEarly, ← x.gaveUp_later, ← x.judged_later,
    Exchange.attempt_of_early hArrival]
  exact hComes

theorem comes_of_late {p : Progress β} {others : List Alarm} (hExchange : p.exchange = x)
    (hScript : p.script = s) (hStage : p.stage = .connecting)
    (hAwaits : p.Awaits (some (m.now + x.delay)) others)
    (hLate : ∀ a ∈ others, m.now + x.delay ≤ a.due)
    (hReply : s.reply.course.within x.delay = false)
    (hOthers : others = [] ∧ s.reply.course = none ∨
      ∃ t answer turn, others = [⟨m.now + t, turn, .answer answer⟩] ∧
        s.reply.course = some (t, answer)) :
    Comes p (x.seen s m.now) (Course.later m.now (x.verdict s)) := by
  subst hExchange hScript
  cases hHeeds : p.script.heedsAbort with
  | true =>
    have hArrival := Exchange.arrival_of_heeds (x := p.exchange) hReply hHeeds
    obtain ⟨hVerdict, hSeen⟩ := Exchange.verdict_of_given_up hArrival m.now
    rw [hVerdict, hSeen]
    exact comes_of_given_up hStage hAwaits hLate hHeeds
  | false =>
    have hArrival := Exchange.arrival_of_deaf (x := p.exchange) hHeeds
    obtain ⟨q, hConnecting, hRest, hExchange, hScript, hGoesOn⟩ :=
      goesOn_of_deaf hStage hAwaits hLate hHeeds
    rcases hOthers with ⟨rfl, hNothing⟩ | ⟨t, answer, turn, rfl, hAnswer⟩
    · obtain ⟨hVerdict, hSeen⟩ :=
        Exchange.verdict_of_nothing (hArrival.trans hNothing) m.now
      rw [hVerdict, hSeen]
      apply hGoesOn
      exact .stalls (hRest.next?_eq_none (by simp [hConnecting, Stage.atHand]))
        (result?_of_connecting hConnecting)
    · have hDelay : p.exchange.delay ≤ t := by
        simpa [hAnswer, Course.within] using hReply
      obtain ⟨hAttempt, hWithin⟩ :=
        Exchange.attempt_of_late (hArrival.trans hAnswer) hDelay hHeeds m.now
      rw [Exchange.seen_of_late (hArrival.trans hAnswer) hDelay hWithin,
        ← Exchange.verdict_of_late hWithin, hAttempt]
      apply hGoesOn
      have hComes := comes_of_connecting hConnecting hRest rfl (by simp)
      rw [hExchange, hScript] at hComes
      simpa [gaveUp] using hComes

/-- An exchange comes to its verdict and shows what is to be seen of it. -/
theorem comes_start (x : Exchange β) (s : Script) (m : Moment) :
    Comes (start x s m).1 (x.seen s m.now) (Course.later m.now (x.verdict s)) := by
  have hBegun := awaits_begun x s m
  have hPos := x.delay_pos
  cases hReply : s.reply with
  | refused f =>
    have hCourse : s.reply.course = some (0, .error f) := by rw [hReply]; rfl
    rw [start_of_refused hReply]
    apply comes_of_early hCourse hPos
    exact comes_of_failed rfl rfl rfl (early_begun hPos)
  | never =>
    have hCourse : s.reply.course = none := by rw [hReply]; rfl
    rw [start_of_never hReply]
    exact comes_of_late rfl rfl rfl hBegun (by simp) (by rw [hCourse]; rfl) (.inl ⟨rfl, hCourse⟩)
  | after n answer =>
    have hCourse : s.reply.course = some (n, answer) := by rw [hReply]; rfl
    cases n with
    | zero =>
      rw [start_of_at_once hReply]
      apply comes_of_early hCourse hPos
      exact comes_of_receive (p := begun x s m) rfl rfl hBegun (early_begun hPos) answer
    | succ n =>
      let a : Alarm := ⟨m.now + (n + 1), m.turn, .answer answer⟩
      have hWaiting : ((begun x s m).setAlarm m (n + 1) (.answer answer)).Awaits
          (some (m.now + x.delay)) [a] := ⟨rfl, m.turn, [a], rfl, agenda_singleton a⟩
      rw [start_of_later hReply]
      by_cases hEarly : n + 1 < x.delay
      · apply comes_of_early hCourse hEarly
        exact comes_of_connecting rfl hWaiting rfl (early_begun hEarly)
      · apply comes_of_late rfl rfl rfl hWaiting
        · intro b hb
          obtain rfl := List.mem_singleton.mp hb
          exact Nat.add_le_add_left (Nat.le_of_not_lt hEarly) m.now
        · have hLate : s.reply.course.within x.delay = false := by
            rw [hCourse]
            simpa [Course.within] using hEarly
          exact hLate
        · exact .inr ⟨n + 1, answer, m.turn, rfl, hCourse⟩

end Progress

end Enroll
