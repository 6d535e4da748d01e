import Enroll.Proofs.Exchange.Frame

/-!
# Rounds and turns

Rounds and turns order the moves of exchanges that run beside each other. Within one exchange they
decide nothing: `unranked` forgets them, and every move of an exchange is the move of what is left
of it at the same time, with the same effects.
-/

namespace Enroll

def Moment.unranked (m : Moment) : Moment := ⟨m.now, 0, 0⟩

def Alarm.unranked (a : Alarm) : Alarm := { a with turn := 0 }

namespace Progress

variable {β : Type}

/-- What is left of an exchange under way without rounds and turns. -/
def unranked (p : Progress β) : Progress β :=
  { p with alarms := p.alarms.map Alarm.unranked, since := p.since.unranked }

@[simp] theorem stage_unranked (p : Progress β) : p.unranked.stage = p.stage := rfl

@[simp] theorem body_unranked (p : Progress β) : p.unranked.body = p.body := rfl

@[simp] theorem script_unranked (p : Progress β) : p.unranked.script = p.script := rfl

theorem conclude_unranked (p : Progress β) (r : Except Failure β) :
    (p.conclude r).unranked = p.unranked.conclude r := by
  simp [conclude, unranked, Alarm.unranked, List.filter_map, Function.comp_def]

theorem setAlarm_unranked (p : Progress β) (m : Moment) (delay : Nat) (purpose : Purpose) :
    (p.setAlarm m delay purpose).unranked = p.unranked.setAlarm m.unranked delay purpose := by
  simp [setAlarm, unranked, Alarm.unranked, Moment.unranked]

theorem bodySettled_unranked (p : Progress β) (r : Except Failure Text) :
    (p.bodySettled r).unranked = p.unranked.bodySettled r := by
  unfold bodySettled
  rw [stage_unranked]
  split <;> rfl

theorem happen_unranked (p : Progress β) (h : Happening) :
    (p.happen h).unranked = p.unranked.happen h := by
  unfold happen
  rw [body_unranked]
  split
  · split
    · rfl
    · exact bodySettled_unranked _ _
    · exact bodySettled_unranked _ _
  · rfl

theorem flow_unranked (p : Progress β) (m : Moment) (items : List Item) :
    (p.flow m items).unranked = p.unranked.flow m.unranked items := by
  fun_induction flow p m items with
  | case1 p => rfl
  | case2 p h rest ih => rw [flow, ← happen_unranked, ih]
  | case3 p n h rest ih => rw [flow, ← setAlarm_unranked, ih]

theorem answered_unranked (p : Progress β) (rounds : Nat) (answer : Except Failure Nat) :
    (p.answered rounds answer).unranked = p.unranked.answered rounds answer := by
  unfold answered
  rw [stage_unranked]
  split <;> rfl

theorem receive_unranked (p : Progress β) (m : Moment) (answer : Answer) :
    (p.receive m answer).unranked = p.unranked.receive m.unranked answer := by
  unfold receive
  split
  · exact answered_unranked p _ _
  · rename_i status body
    cases body with
    | stream items release =>
      simp only [flow_unranked, ← answered_unranked]
      rfl
    | _ => simp only [← answered_unranked]; rfl

theorem readBody_unranked (p : Progress β) (value : Text → β) :
    (p.readBody value).unranked = p.unranked.readBody value := by
  unfold readBody
  rw [body_unranked]
  split <;> rfl

theorem discardBody_unranked (p : Progress β) (value : β) :
    (p.discardBody value).1.unranked = (p.unranked.discardBody value).1 ∧
      (p.discardBody value).2 = (p.unranked.discardBody value).2 := by
  unfold discardBody release
  rw [body_unranked]
  split <;> first | exact ⟨rfl, rfl⟩ | (split <;> exact ⟨rfl, rfl⟩)

theorem react_unranked (p : Progress β) (m : Moment) (r : Reaction β) :
    (p.react m r).1.unranked = (p.unranked.react m.unranked r).1 ∧
      (p.react m r).2 = (p.unranked.react m.unranked r).2 := by
  cases r with
  | settle r => exact ⟨conclude_unranked p r, rfl⟩
  | readBody value => exact ⟨readBody_unranked p value, rfl⟩
  | discardBody value => exact discardBody_unranked p value
  | pause delay r =>
    cases delay with
    | zero => exact ⟨rfl, rfl⟩
    | succ n => exact ⟨setAlarm_unranked _ m (n + 1) .pause, rfl⟩
  | never => exact ⟨rfl, rfl⟩

theorem withdraw_unranked (p : Progress β) : p.withdraw.unranked = p.unranked.withdraw := by
  unfold withdraw
  rw [stage_unranked, body_unranked]
  split
  · exact answered_unranked p _ _
  · rfl
  · split
    · exact bodySettled_unranked _ _
    · rfl

theorem ring_unranked (p : Progress β) (m : Moment) (purpose : Purpose) :
    (p.ring m purpose).1.unranked = (p.unranked.ring m.unranked purpose).1 ∧
      (p.ring m purpose).2 = (p.unranked.ring m.unranked purpose).2 := by
  unfold ring
  cases purpose with
  | deadline =>
    refine ⟨?_, rfl⟩
    by_cases hHeeds : p.script.heedsAbort
    · simp only [script_unranked, hHeeds, ↓reduceIte]
      exact withdraw_unranked _
    · simp only [script_unranked, hHeeds, Bool.false_eq_true, ↓reduceIte]
      rfl
  | answer a => exact ⟨receive_unranked p m a, rfl⟩
  | item h => exact ⟨happen_unranked p h, rfl⟩
  | pause =>
    simp only [stage_unranked]
    split <;> exact ⟨rfl, rfl⟩

theorem earliest?_unranked (alarms : List Alarm) :
    earliest? (alarms.map Alarm.unranked) =
      (earliest? alarms).map fun a => (a.1.unranked, a.2.map Alarm.unranked) := by
  induction alarms with
  | nil => rfl
  | cons a rest ih =>
    simp only [List.map_cons, earliest?, ih]
    cases earliest? rest with
    | none => rfl
    | some found =>
      by_cases hDue : a.due ≤ found.1.due
      · simp [hDue, show a.unranked.due ≤ found.1.unranked.due from hDue]
      · simp [hDue, show ¬ a.unranked.due ≤ found.1.unranked.due from hDue]

theorem step_unranked (p : Progress β) (m : Moment) :
    (p.step m).1.unranked = (p.unranked.step m.unranked).1 ∧
      (p.step m).2 = (p.unranked.step m.unranked).2 := by
  by_cases hHand : p.stage.atHand
  · cases hStage : p.stage with
    | answered answer =>
      cases answer with
      | error f =>
        rw [step_of_refused hStage, step_of_refused (p := p.unranked) hStage]
        exact ⟨conclude_unranked _ _, rfl⟩
      | ok status =>
        rw [step_of_answered hStage, step_of_answered (p := p.unranked) hStage]
        exact react_unranked _ m _
    | concluding r =>
      rw [step_of_concluding hStage, step_of_concluding (p := p.unranked) hStage]
      exact ⟨conclude_unranked _ _, rfl⟩
    | _ => simp [hStage, Stage.atHand] at hHand
  · have hWaits : p.stage.atHand = false := by simpa using hHand
    have hFound := earliest?_unranked p.alarms
    cases hEarliest : earliest? p.alarms with
    | none =>
      rw [hEarliest] at hFound
      rw [step_of_none hWaits hEarliest, step_of_none (p := p.unranked) hWaits hFound]
      exact ⟨rfl, rfl⟩
    | some found =>
      rw [hEarliest] at hFound
      rw [step_of_some hWaits hEarliest, step_of_some (p := p.unranked) hWaits hFound]
      exact ring_unranked _ m _

theorem time_next?_unranked (p : Progress β) :
    p.unranked.next?.map NextMove.time = p.next?.map NextMove.time := by
  unfold next?
  rw [ready_eq, ready_eq, stage_unranked]
  split
  · rfl
  · change ((earliest? (p.alarms.map Alarm.unranked)).map _).map _ = _
    rw [earliest?_unranked]
    cases earliest? p.alarms <;> rfl

theorem pending_unranked (p : Progress β) : p.unranked.pending = p.pending := by
  simp [pending, unranked, Alarm.unranked, List.filter_map, Function.comp_def]

theorem start_unranked (x : Exchange β) (s : Script) (m : Moment) :
    (start x s m).1.unranked = (start x s m.unranked).1.unranked := by
  unfold start
  cases s.reply with
  | refused f => rfl
  | never => rfl
  | after delay answer =>
    cases delay with
    | zero =>
      simp only [receive_unranked]
      rfl
    | succ n => rfl

end Progress

end Enroll
