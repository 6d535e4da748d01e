import Enroll.Exchange.Loop

/-!
# What an exchange under way keeps

Apart from the timer of the exchange and the reaction to the response, whatever moves an exchange
leaves its request, its script and its abort flag alone, never turns the stage back, and does not
touch one that is over. Alarms are only ever added at the end of the list.

`Progress.work` falls with every move, so an exchange makes finitely many.
-/

namespace Enroll

section Sums

variable {α : Type} (f : α → Nat)

@[simp] theorem sumOf_nil : sumOf f [] = 0 := rfl

@[simp] theorem sumOf_cons (a : α) (rest : List α) :
    sumOf f (a :: rest) = f a + sumOf f rest := rfl

@[simp] theorem sumOf_append (before after : List α) :
    sumOf f (before ++ after) = sumOf f before + sumOf f after := by
  induction before with
  | nil => simp
  | cons a rest ih =>
    simp only [List.cons_append, sumOf_cons, ih]
    omega

theorem sumOf_perm {before after : List α} (h : before.Perm after) :
    sumOf f before = sumOf f after := by
  induction h with
  | nil => rfl
  | cons a _ ih => rw [sumOf_cons, sumOf_cons, ih]
  | swap a b rest =>
    simp only [sumOf_cons]
    omega
  | trans _ _ ih ih' => exact ih.trans ih'

theorem sumOf_filter_le (all : List α) (keep : α → Bool) :
    sumOf f (all.filter keep) ≤ sumOf f all := by
  induction all with
  | nil => simp
  | cons a rest ih =>
    rw [List.filter_cons]
    split
    · simp only [sumOf_cons]
      omega
    · simp only [sumOf_cons]
      omega

theorem sumOf_set {all : List α} {place : Nat} {a : α} (h : all[place]? = some a) (b : α) :
    sumOf f (all.set place b) + f a = sumOf f all + f b := by
  induction all generalizing place with
  | nil => simp at h
  | cons c rest ih =>
    cases place with
    | zero =>
      obtain rfl : c = a := by simpa using h
      simp only [List.set_cons_zero, sumOf_cons]
      omega
    | succ place =>
      have hRest := @ih place (by simpa using h)
      simp only [List.set_cons_succ, sumOf_cons]
      omega

end Sums

namespace Stage

variable {β : Type}

/-- The part of `Progress.work` that the stage accounts for. -/
def work : Stage β → Nat
  | .connecting => 5
  | .answered _ => 4
  | .reading _ | .discarding _ | .pausing _ | .stuck => 2
  | .concluding _ => 1
  | .over _ => 0

def atHand : Stage β → Bool
  | .answered _ | .concluding _ => true
  | _ => false

end Stage

namespace Progress

variable {β : Type}

theorem ready_eq (p : Progress β) : p.ready = p.stage.atHand := by
  unfold ready Stage.atHand
  split <;> simp_all

theorem work_eq (p : Progress β) : p.work = sumOf alarmWork p.alarms + p.stage.work := by
  unfold work Stage.work
  cases p.stage <;> rfl

theorem result?_eq_some_iff {p : Progress β} {r : Except Failure β} :
    p.result? = some r ↔ p.stage = .over r := by
  rw [result?]
  split <;> simp_all

theorem result?_eq_none_iff {p : Progress β} : p.result? = none ↔ ∀ r, p.stage ≠ .over r := by
  rw [result?]
  split <;> simp_all

/-! ## The start -/

/-- An exchange whose timer is set and whose request is on its way. -/
def begun (x : Exchange β) (s : Script) (m : Moment) : Progress β :=
  setAlarm ⟨x, s, .connecting, 0, .absent, false, [], m⟩ m (timerDelay x.timeout) .deadline

section Start

variable {x : Exchange β} {s : Script} {m : Moment}

theorem start_of_refused {f : Failure} (hReply : s.reply = .refused f) :
    start x s m = ((begun x s m).answered 1 (.error f), [.sent x.request false]) := by
  simp only [start, hReply, begun]

theorem start_of_never (hReply : s.reply = .never) :
    start x s m = (begun x s m, [.sent x.request false]) := by
  simp only [start, hReply, begun]

theorem start_of_at_once {answer : Answer} (hReply : s.reply = .after 0 answer) :
    start x s m = ((begun x s m).receive m answer, [.sent x.request false]) := by
  simp only [start, hReply, begun]

theorem start_of_later {n : Nat} {answer : Answer} (hReply : s.reply = .after (n + 1) answer) :
    start x s m =
      ((begun x s m).setAlarm m (n + 1) (.answer answer), [.sent x.request false]) := by
  simp only [start, hReply, begun]

end Start

/-! ## The moves -/

section Moves

variable {p : Progress β} {m : Moment}

theorem step_of_refused {f : Failure} (hStage : p.stage = .answered (.error f)) :
    p.step m = (conclude { p with since := m } (.error f), []) := by
  simp only [step, hStage]

theorem step_of_answered {status : Nat} (hStage : p.stage = .answered (.ok status)) :
    p.step m = react { p with since := m } m (p.exchange.react status) := by
  simp only [step, hStage]

theorem step_of_concluding {r : Except Failure β} (hStage : p.stage = .concluding r) :
    p.step m = (conclude { p with since := m } r, []) := by
  simp only [step, hStage]

theorem step_of_none (hWaits : p.stage.atHand = false) (hEarliest : earliest? p.alarms = none) :
    p.step m = ({ p with since := m }, []) := by
  rw [step]
  cases hStage : p.stage <;> simp_all [Stage.atHand]

theorem step_of_some {a : Alarm} {others : List Alarm} (hWaits : p.stage.atHand = false)
    (hEarliest : earliest? p.alarms = some (a, others)) :
    p.step m = ring { p with alarms := others, since := m } m a.purpose := by
  rw [step]
  cases hStage : p.stage <;> simp_all [Stage.atHand]

end Moves

/-! ## What stays -/

/-- From `p` to `q` nothing but the stage, its wait, the body and the alarms has changed. -/
structure Keeps (p q : Progress β) : Prop where
  exchange : q.exchange = p.exchange
  script : q.script = p.script
  aborted : q.aborted = p.aborted
  since : q.since = p.since
  work : q.stage.work ≤ p.stage.work
  ended : ∀ r, q.stage = .over r ↔ p.stage = .over r

theorem Keeps.refl (p : Progress β) : Keeps p p :=
  ⟨rfl, rfl, rfl, rfl, Nat.le_refl _, fun _ => Iff.rfl⟩

theorem Keeps.trans {p q r : Progress β} (hpq : Keeps p q) (hqr : Keeps q r) : Keeps p r where
  exchange := hqr.exchange.trans hpq.exchange
  script := hqr.script.trans hpq.script
  aborted := hqr.aborted.trans hpq.aborted
  since := hqr.since.trans hpq.since
  work := Nat.le_trans hqr.work hpq.work
  ended s := (hqr.ended s).trans (hpq.ended s)

theorem Keeps.result?_eq_none {p q : Progress β} (h : Keeps p q) (hResult : p.result? = none) :
    q.result? = none :=
  result?_eq_none_iff.mpr fun r hStage =>
    result?_eq_none_iff.mp hResult r ((h.ended r).mp hStage)

theorem keeps_bodySettled (p : Progress β) (r : Except Failure Text) :
    Keeps p (p.bodySettled r) := by
  rw [bodySettled]
  cases hStage : p.stage with
  | reading value =>
    exact ⟨rfl, rfl, rfl, rfl, by simp [concludeAfter, hStage, Stage.work],
      fun s => by simp [concludeAfter, hStage]⟩
  | _ => exact Keeps.refl p

theorem keeps_withBody (p : Progress β) (b : BodyState) : Keeps p { p with body := b } :=
  ⟨rfl, rfl, rfl, rfl, Nat.le_refl _, fun _ => Iff.rfl⟩

theorem keeps_happen (p : Progress β) (h : Happening) : Keeps p (p.happen h) := by
  rw [happen]
  split
  · split
    · exact keeps_withBody p _
    · exact (keeps_withBody p _).trans (keeps_bodySettled _ _)
    · exact (keeps_withBody p _).trans (keeps_bodySettled _ _)
  · exact Keeps.refl p

theorem keeps_setAlarm (p : Progress β) (m : Moment) (delay : Nat) (purpose : Purpose) :
    Keeps p (p.setAlarm m delay purpose) :=
  ⟨rfl, rfl, rfl, rfl, Nat.le_refl _, fun _ => Iff.rfl⟩

theorem keeps_flow (p : Progress β) (m : Moment) (items : List Item) :
    Keeps p (p.flow m items) := by
  fun_induction flow p m items with
  | case1 p => exact Keeps.refl p
  | case2 p h rest ih => exact (keeps_happen p h).trans ih
  | case3 p n h rest ih => exact (keeps_setAlarm p m (n + 1) (.item h)).trans ih

theorem keeps_answered (p : Progress β) (rounds : Nat) (answer : Except Failure Nat) :
    Keeps p (p.answered rounds answer) := by
  rw [answered]
  cases hStage : p.stage with
  | connecting =>
    exact ⟨rfl, rfl, rfl, rfl, by simp [hStage, Stage.work], fun s => by simp [hStage]⟩
  | _ => exact Keeps.refl p

theorem keeps_receive (p : Progress β) (m : Moment) (answer : Answer) :
    Keeps p (p.receive m answer) := by
  unfold receive
  split
  · exact keeps_answered p _ _
  · rename_i status body
    have hAnswered := keeps_answered p 1 (.ok status)
    cases body with
    | stream items release =>
      exact (hAnswered.trans (keeps_withBody _ _)).trans (keeps_flow _ m items)
    | _ => exact hAnswered.trans (keeps_withBody _ _)

theorem keeps_withdraw (p : Progress β) : Keeps p p.withdraw := by
  rw [withdraw]
  split
  · exact keeps_answered p _ _
  · rename_i value hStage
    exact ⟨rfl, rfl, rfl, rfl, by simp [concludeAfter, hStage, Stage.work],
      fun s => by simp [concludeAfter, hStage]⟩
  · split
    · exact (keeps_withBody p _).trans (keeps_bodySettled _ _)
    · exact Keeps.refl p

/-! ## Alarms -/

/-- The timers that are set for the items of a body when it begins to come. -/
def itemAlarms (m : Moment) (items : List Item) : List Alarm :=
  (items.filter fun i => i.delay != 0).map fun i => ⟨m.now + i.delay, m.turn, .item i.happening⟩

@[simp] theorem alarms_concludeAfter (p : Progress β) (rounds : Nat) (r : Except Failure β) :
    (p.concludeAfter rounds r).alarms = p.alarms := rfl

@[simp] theorem alarms_bodySettled (p : Progress β) (r : Except Failure Text) :
    (p.bodySettled r).alarms = p.alarms := by
  rw [bodySettled]
  split <;> rfl

@[simp] theorem alarms_happen (p : Progress β) (h : Happening) :
    (p.happen h).alarms = p.alarms := by
  rw [happen]
  split
  · split <;> simp
  · rfl

@[simp] theorem alarms_answered (p : Progress β) (rounds : Nat) (answer : Except Failure Nat) :
    (p.answered rounds answer).alarms = p.alarms := by
  rw [answered]
  split <;> rfl

@[simp] theorem alarms_withdraw (p : Progress β) : p.withdraw.alarms = p.alarms := by
  rw [withdraw]
  split
  · simp
  · rfl
  · split <;> simp

theorem alarms_flow (p : Progress β) (m : Moment) (items : List Item) :
    (p.flow m items).alarms = p.alarms ++ itemAlarms m items := by
  fun_induction flow p m items with
  | case1 p => simp [itemAlarms]
  | case2 p h rest ih => simpa [itemAlarms] using ih
  | case3 p n h rest ih => simpa [itemAlarms, setAlarm] using ih

theorem alarms_receive (p : Progress β) (m : Moment) (answer : Answer) :
    (p.receive m answer).alarms = p.alarms ++ itemAlarms m answer.items := by
  unfold receive
  split
  · simp [Answer.items, itemAlarms]
  · rename_i status body
    cases body with
    | stream items release => simp [alarms_flow, Answer.items]
    | _ => simp [Answer.items, itemAlarms]

/-! ## Reactions -/

/-- From `p` to `q` the body of the response was taken up, which sets no timer. -/
structure TakesUp (p q : Progress β) : Prop where
  exchange : q.exchange = p.exchange
  script : q.script = p.script
  aborted : q.aborted = p.aborted
  since : q.since = p.since
  alarms : q.alarms = p.alarms
  work : q.stage.work ≤ 2
  goesOn : ∀ r, q.stage ≠ .over r

theorem takesUp_concludeAfter (p : Progress β) (rounds : Nat) (r : Except Failure β) :
    TakesUp p (p.concludeAfter rounds r) :=
  ⟨rfl, rfl, rfl, rfl, rfl, by simp [concludeAfter, Stage.work], fun s => by simp [concludeAfter]⟩

theorem takesUp_readBody (p : Progress β) (value : Text → β) : TakesUp p (p.readBody value) := by
  rw [readBody]
  split
  case h_5 => exact ⟨rfl, rfl, rfl, rfl, rfl, by simp [Stage.work], fun r => by simp⟩
  all_goals exact takesUp_concludeAfter p _ _

theorem takesUp_release (p : Progress β) (value : β) (r : Release) :
    TakesUp p (p.release value r) := by
  cases r with
  | pending =>
    exact ⟨rfl, rfl, rfl, rfl, rfl, by simp [release, Stage.work], fun r => by simp [release]⟩
  | granted | refused f =>
    exact ⟨rfl, rfl, rfl, rfl, rfl, by simp [release, concludeAfter, Stage.work],
      fun r => by simp [release, concludeAfter]⟩

theorem takesUp_discardBody (p : Progress β) (value : β) :
    TakesUp p (p.discardBody value).1 := by
  rw [discardBody]
  split <;> dsimp only <;>
    first | exact takesUp_concludeAfter p _ _ | exact takesUp_release p value _

/-! ## The work of timers -/

theorem work_itemAlarms (m : Moment) (items : List Item) :
    sumOf alarmWork (itemAlarms m items) ≤ items.length := by
  induction items with
  | nil => simp [itemAlarms]
  | cons i rest ih =>
    have hOne : alarmWork ⟨m.now + i.delay, m.turn, .item i.happening⟩ = 1 := rfl
    rw [itemAlarms] at ih ⊢
    rw [List.filter_cons]
    split
    · rw [List.map_cons, sumOf_cons, hOne, List.length_cons]
      omega
    · rw [List.length_cons]
      omega

end Progress

end Enroll
