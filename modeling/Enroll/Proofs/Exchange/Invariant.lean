import Enroll.Proofs.Exchange.Frame

/-!
# What holds of every exchange under way

`Progress.Sound` says that no timer is behind the last move, and that the timer of an exchange that
is over is no longer set. A start establishes it and every move that is made in its time keeps it.
A move makes `Progress.work` smaller, and shows nothing and changes no result once the exchange is
over.
-/

namespace Enroll.Progress

variable {β : Type}

/-! ## The earliest alarm -/

theorem earliest?_eq_none_iff {alarms : List Alarm} : earliest? alarms = none ↔ alarms = [] := by
  cases alarms with
  | nil => simp [earliest?]
  | cons a rest =>
    simp only [earliest?, reduceCtorEq, iff_false]
    split
    · simp
    · split <;> simp

theorem perm_of_earliest? {alarms others : List Alarm} {a : Alarm}
    (h : earliest? alarms = some (a, others)) : alarms.Perm (a :: others) := by
  induction alarms generalizing a others with
  | nil => simp [earliest?] at h
  | cons b rest ih =>
    simp only [earliest?] at h
    split at h
    · rename_i hNone
      rw [earliest?_eq_none_iff.mp hNone]
      simp_all
    · rename_i c found hFound
      split at h
      · simp_all
      · obtain ⟨rfl, rfl⟩ : c = a ∧ b :: found = others := by simpa using h
        exact ((ih hFound).cons b).trans (.swap c b found)

theorem due_le_of_earliest? {alarms others : List Alarm} {a : Alarm}
    (h : earliest? alarms = some (a, others)) : ∀ b ∈ others, a.due ≤ b.due := by
  induction alarms generalizing a others with
  | nil => simp [earliest?] at h
  | cons b rest ih =>
    simp only [earliest?] at h
    split at h
    · simp_all
    · rename_i c found hFound
      split at h
      · rename_i hDue
        obtain ⟨rfl, rfl⟩ : b = a ∧ rest = others := by simpa using h
        intro d hd
        rcases List.mem_cons.mp ((perm_of_earliest? hFound).mem_iff.mp hd) with rfl | hd
        · exact hDue
        · exact Nat.le_trans hDue (ih hFound d hd)
      · rename_i hDue
        obtain ⟨rfl, rfl⟩ : c = a ∧ b :: found = others := by simpa using h
        intro d hd
        rcases List.mem_cons.mp hd with rfl | hd
        · omega
        · exact ih hFound d hd

/-! ## Every move uses up work -/

theorem work_conclude_le (p : Progress β) (r : Except Failure β) :
    (p.conclude r).work ≤ sumOf alarmWork p.alarms := by
  simpa [work_eq, conclude, Stage.work] using sumOf_filter_le alarmWork p.alarms _

theorem Keeps.work_le {p q : Progress β} (h : Keeps p q) (hAlarms : q.alarms = p.alarms) :
    q.work ≤ p.work := by
  rw [work_eq, work_eq, hAlarms]
  exact Nat.add_le_add_left h.work _

theorem TakesUp.work_le {p q : Progress β} (h : TakesUp p q) :
    q.work ≤ sumOf alarmWork p.alarms + 3 := by
  have hStage := h.work
  rw [work_eq, h.alarms]
  omega

theorem work_react_le (p : Progress β) (m : Moment) (r : Reaction β) :
    (p.react m r).1.work ≤ sumOf alarmWork p.alarms + 3 := by
  cases r with
  | settle r => exact Nat.le_trans (work_conclude_le p r) (Nat.le_add_right _ _)
  | readBody value => exact (takesUp_readBody p value).work_le
  | discardBody value => exact (takesUp_discardBody p value).work_le
  | pause delay r =>
    cases delay with
    | zero => simp [react, work_eq, concludeAfter, Stage.work]
    | succ n => simp [react, work_eq, setAlarm, alarmWork, Stage.work, Nat.add_assoc]
  | never => simp [react, work_eq, Stage.work]

theorem work_receive_le (p : Progress β) (m : Moment) (answer : Answer) :
    (p.receive m answer).work ≤ p.work + answer.items.length := by
  have hItems := work_itemAlarms m answer.items
  have hStage := (keeps_receive p m answer).work
  simp only [work_eq, alarms_receive, sumOf_append]
  omega

theorem work_ring_lt (p : Progress β) (m : Moment) (a : Alarm) :
    (p.ring m a.purpose).1.work < p.work + alarmWork a := by
  unfold ring alarmWork
  cases a.purpose with
  | deadline =>
    dsimp only
    split
    · exact Nat.lt_succ_of_le ((keeps_withdraw _).work_le (alarms_withdraw _))
    · simp [work_eq]
  | answer answer =>
    have hReceive := work_receive_le p m answer
    dsimp only
    omega
  | item h => exact Nat.lt_succ_of_le ((keeps_happen p h).work_le (alarms_happen p h))
  | pause =>
    cases hStage : p.stage <;> simp [work_eq, concludeAfter, hStage, Stage.work]

theorem work_step_lt {p : Progress β} (m : Moment) (hNext : p.next?.isSome) :
    (p.step m).1.work < p.work := by
  unfold next? at hNext
  rw [ready_eq] at hNext
  by_cases hHand : p.stage.atHand
  · cases hStage : p.stage with
    | answered answer =>
      cases answer with
      | error f =>
        have hConclude := work_conclude_le { p with since := m } (.error f)
        rw [step_of_refused hStage, work_eq p, hStage]
        simp only [Stage.work]
        exact Nat.lt_of_le_of_lt hConclude (Nat.lt_add_of_pos_right (by decide))
      | ok status =>
        have hReact := work_react_le { p with since := m } m (p.exchange.react status)
        rw [step_of_answered hStage, work_eq p, hStage]
        simp only [Stage.work]
        exact Nat.lt_of_le_of_lt hReact (Nat.add_lt_add_left (by decide) _)
    | concluding r =>
      have hConclude := work_conclude_le { p with since := m } r
      rw [step_of_concluding hStage, work_eq p, hStage]
      simp only [Stage.work]
      exact Nat.lt_of_le_of_lt hConclude (Nat.lt_add_of_pos_right (by decide))
    | _ => simp [hStage, Stage.atHand] at hHand
  · have hWaits : p.stage.atHand = false := by simpa using hHand
    cases hEarliest : earliest? p.alarms with
    | none => simp [hWaits, hEarliest] at hNext
    | some found =>
      obtain ⟨a, others⟩ := found
      have hRing := work_ring_lt { p with alarms := others, since := m } m a
      have hSum := sumOf_perm alarmWork (perm_of_earliest? hEarliest)
      rw [step_of_some hWaits hEarliest]
      rw [sumOf_cons] at hSum
      rw [work_eq p, hSum]
      rw [work_eq { p with alarms := others, since := m }] at hRing
      dsimp only at hRing
      omega

/-! ## What every move keeps -/

structure Sound (p : Progress β) : Prop where
  timely : ∀ a ∈ p.alarms, p.since.now ≤ a.due
  closed : ∀ r, p.stage = .over r → ∀ a ∈ p.alarms, a.purpose.isDeadline = false

theorem Sound.since_le {p : Progress β} (h : p.Sound) {next : NextMove}
    (hNext : p.next? = some next) : p.since.now ≤ next.time := by
  unfold next? at hNext
  split at hNext
  · obtain rfl := Option.some.inj hNext
    exact Nat.le_refl _
  · obtain ⟨⟨a, others⟩, hEarliest, rfl⟩ := Option.map_eq_some_iff.mp hNext
    exact h.timely a ((perm_of_earliest? hEarliest).mem_iff.mpr List.mem_cons_self)

/-- Later timers keep an exchange sound that is not over. -/
theorem Sound.of_alarms {p : Progress β} (hTimely : ∀ a ∈ p.alarms, p.since.now ≤ a.due)
    (hOpen : ∀ r, p.stage ≠ .over r) : p.Sound :=
  ⟨hTimely, fun r hStage => absurd hStage (hOpen r)⟩

theorem sound_conclude {p : Progress β} (hTimely : ∀ a ∈ p.alarms, p.since.now ≤ a.due)
    (r : Except Failure β) : (p.conclude r).Sound where
  timely a ha := hTimely a ((List.mem_filter.mp ha).1)
  closed _ _ a ha := by simpa using (List.mem_filter.mp ha).2

theorem Sound.of_keeps {p q : Progress β} (h : p.Sound) (hKeeps : Keeps p q)
    (hAlarms : ∀ a ∈ q.alarms, a ∈ p.alarms ∨
      p.since.now ≤ a.due ∧ a.purpose.isDeadline = false) : q.Sound where
  timely a ha := by
    rw [hKeeps.since]
    exact (hAlarms a ha).elim (h.timely a) And.left
  closed r hStage a ha :=
    (hAlarms a ha).elim (h.closed r ((hKeeps.ended r).mp hStage) a) And.right

theorem mem_itemAlarms {m : Moment} {items : List Item} {a : Alarm} (h : a ∈ itemAlarms m items) :
    m.now ≤ a.due ∧ a.purpose.isDeadline = false := by
  obtain ⟨i, -, rfl⟩ := List.mem_map.mp h
  exact ⟨Nat.le_add_right _ _, rfl⟩

theorem Sound.receive {p : Progress β} (h : p.Sound) {m : Moment} (hNow : p.since.now ≤ m.now)
    (answer : Answer) : (p.receive m answer).Sound := by
  apply h.of_keeps (keeps_receive p m answer)
  intro a ha
  rw [alarms_receive] at ha
  refine (List.mem_append.mp ha).imp_right fun hItem => ?_
  exact ⟨Nat.le_trans hNow (mem_itemAlarms hItem).1, (mem_itemAlarms hItem).2⟩

theorem Sound.ring {p : Progress β} (h : p.Sound) {m : Moment} (hNow : p.since.now ≤ m.now)
    (purpose : Purpose) : (p.ring m purpose).1.Sound := by
  cases purpose with
  | deadline =>
    have hAborted : Sound { p with aborted := true } := ⟨h.timely, h.closed⟩
    rw [Progress.ring]
    dsimp only
    split
    · exact hAborted.of_keeps (keeps_withdraw _) fun a ha => .inl (by simpa using ha)
    · exact hAborted
  | answer answer => exact h.receive hNow answer
  | item happening =>
    exact h.of_keeps (keeps_happen p happening) fun a ha => .inl (by simpa [Progress.ring] using ha)
  | pause =>
    unfold Progress.ring
    dsimp only
    split
    · exact .of_alarms h.timely fun r => by simp [concludeAfter]
    · exact h

theorem TakesUp.sound {p q : Progress β} (h : TakesUp p q)
    (hTimely : ∀ a ∈ p.alarms, p.since.now ≤ a.due) : q.Sound := by
  apply Sound.of_alarms _ h.goesOn
  rwa [h.alarms, h.since]

theorem sound_react {p : Progress β} (hTimely : ∀ a ∈ p.alarms, p.since.now ≤ a.due) {m : Moment}
    (hNow : p.since.now ≤ m.now) (r : Reaction β) : (p.react m r).1.Sound := by
  cases r with
  | settle r => exact sound_conclude hTimely r
  | readBody value => exact (takesUp_readBody p value).sound hTimely
  | discardBody value => exact (takesUp_discardBody p value).sound hTimely
  | pause delay r =>
    cases delay with
    | zero => exact .of_alarms hTimely fun r => by simp [react, concludeAfter]
    | succ n =>
      refine .of_alarms (fun a ha => ?_) fun r => by simp [react, setAlarm]
      rcases List.mem_append.mp ha with ha | ha
      · exact hTimely a ha
      · obtain rfl := List.mem_singleton.mp ha
        exact Nat.le_trans hNow (Nat.le_add_right _ _)
  | never => exact .of_alarms hTimely fun r => by simp [react]

/-- A move is made in its time when the clock shows what `next?` says. -/
def MovesAt (p : Progress β) (m : Moment) : Prop := p.next?.map NextMove.time = some m.now

theorem movesAt_iff_of_atHand {p : Progress β} {m : Moment} (hHand : p.stage.atHand) :
    p.MovesAt m ↔ p.since.now = m.now := by
  simp [MovesAt, next?, ready_eq, hHand]

theorem movesAt_since {p : Progress β} (hHand : p.stage.atHand) : p.MovesAt p.since :=
  (movesAt_iff_of_atHand hHand).mpr rfl

theorem movesAt_iff_of_waits {p : Progress β} {m : Moment} (hWaits : p.stage.atHand = false) :
    p.MovesAt m ↔ ∃ a others, earliest? p.alarms = some (a, others) ∧ a.due = m.now := by
  simp [MovesAt, next?, ready_eq, hWaits]

theorem Sound.step {p : Progress β} (h : p.Sound) {m : Moment} (hMoves : p.MovesAt m) :
    (p.step m).1.Sound := by
  by_cases hHand : p.stage.atHand
  · have hNow := (movesAt_iff_of_atHand hHand).mp hMoves
    have hTimely : ∀ a ∈ p.alarms, m.now ≤ a.due := hNow ▸ h.timely
    cases hStage : p.stage with
    | answered answer =>
      cases answer with
      | error f =>
        rw [step_of_refused hStage]
        exact sound_conclude hTimely _
      | ok status =>
        rw [step_of_answered hStage]
        exact sound_react hTimely (Nat.le_refl _) _
    | concluding r =>
      rw [step_of_concluding hStage]
      exact sound_conclude hTimely _
    | _ => simp [hStage, Stage.atHand] at hHand
  · have hWaits : p.stage.atHand = false := by simpa using hHand
    obtain ⟨a, others, hEarliest, hDue⟩ := (movesAt_iff_of_waits hWaits).mp hMoves
    have hOthers : Sound { p with alarms := others, since := m } :=
      { timely := fun b hb => hDue ▸ due_le_of_earliest? hEarliest b hb
        closed := fun r hStage b hb => h.closed r hStage b
          ((perm_of_earliest? hEarliest).mem_iff.mpr (List.mem_cons_of_mem _ hb)) }
    rw [step_of_some hWaits hEarliest]
    exact hOthers.ring (Nat.le_refl _) _

theorem since_react (p : Progress β) (m : Moment) (r : Reaction β) :
    (p.react m r).1.since = p.since := by
  cases r with
  | readBody value => exact (takesUp_readBody p value).since
  | discardBody value => exact (takesUp_discardBody p value).since
  | pause delay r => cases delay <;> rfl
  | settle _ | never => rfl

theorem since_ring (p : Progress β) (m : Moment) (purpose : Purpose) :
    (p.ring m purpose).1.since = p.since := by
  unfold ring
  cases purpose with
  | deadline =>
    dsimp only
    split
    · exact (keeps_withdraw _).since
    · rfl
  | answer answer => exact (keeps_receive p m answer).since
  | item h => exact (keeps_happen p h).since
  | pause =>
    dsimp only
    split <;> rfl

theorem since_step (p : Progress β) (m : Moment) : (p.step m).1.since = m := by
  rw [step]
  dsimp only
  split
  · rfl
  · exact since_react _ _ _
  · rfl
  · split
    · rfl
    · exact since_ring _ _ _

/-- Nothing shows any more of an exchange that is over, and its result stays. -/
theorem Sound.step_of_over {p : Progress β} (h : p.Sound) {m : Moment} {r : Except Failure β}
    (hStage : p.stage = .over r) : (p.step m).1.stage = .over r ∧ (p.step m).2 = [] := by
  have hWaits : p.stage.atHand = false := by simp [hStage, Stage.atHand]
  cases hEarliest : earliest? p.alarms with
  | none =>
    rw [step_of_none hWaits hEarliest]
    exact ⟨hStage, rfl⟩
  | some found =>
    obtain ⟨a, others⟩ := found
    have hPurpose := h.closed r hStage a
      ((perm_of_earliest? hEarliest).mem_iff.mpr List.mem_cons_self)
    rw [step_of_some hWaits hEarliest]
    cases hAlarm : a.purpose with
    | deadline => simp [hAlarm, Purpose.isDeadline] at hPurpose
    | answer answer => exact ⟨((keeps_receive _ m answer).ended r).mpr hStage, rfl⟩
    | item happening => exact ⟨((keeps_happen _ happening).ended r).mpr hStage, rfl⟩
    | pause => simp [Progress.ring, hStage]

theorem Sound.pending_of_over {p : Progress β} (h : p.Sound) {r : Except Failure β}
    (hStage : p.stage = .over r) : p.pending = 0 := by
  have hNone : (p.alarms.filter fun a => a.purpose.isDeadline) = [] :=
    List.filter_eq_nil_iff.mpr fun a ha => by simp [h.closed r hStage a ha]
  simp [pending, hNone]

theorem sound_begun (x : Exchange β) (s : Script) (m : Moment) : (begun x s m).Sound :=
  .of_alarms (by simp [begun, setAlarm]) fun r => by simp [begun, setAlarm]

theorem sound_start (x : Exchange β) (s : Script) (m : Moment) : (start x s m).1.Sound := by
  have hBegun := sound_begun x s m
  cases hReply : s.reply with
  | refused f =>
    rw [start_of_refused hReply]
    exact hBegun.of_keeps (keeps_answered _ _ _) fun a ha => .inl (by simpa using ha)
  | never =>
    rw [start_of_never hReply]
    exact hBegun
  | after delay answer =>
    cases delay with
    | zero =>
      rw [start_of_at_once hReply]
      exact hBegun.receive (Nat.le_refl _) answer
    | succ n =>
      rw [start_of_later hReply]
      exact .of_alarms (by simp [begun, setAlarm]) fun r => by simp [begun, setAlarm]

theorem since_start (x : Exchange β) (s : Script) (m : Moment) : (start x s m).1.since = m := by
  cases hReply : s.reply with
  | refused f =>
    rw [start_of_refused hReply]
    exact (keeps_answered _ _ _).since
  | never =>
    rw [start_of_never hReply]
    rfl
  | after delay answer =>
    cases delay with
    | zero =>
      rw [start_of_at_once hReply]
      exact (keeps_receive _ m answer).since
    | succ n =>
      rw [start_of_later hReply]
      rfl

theorem result?_start (x : Exchange β) (s : Script) (m : Moment) :
    (start x s m).1.result? = none := by
  have hBegun : (begun x s m).result? = none := rfl
  cases hReply : s.reply with
  | refused f =>
    rw [start_of_refused hReply]
    exact (keeps_answered _ _ _).result?_eq_none hBegun
  | never =>
    rw [start_of_never hReply]
    exact hBegun
  | after delay answer =>
    cases delay with
    | zero =>
      rw [start_of_at_once hReply]
      exact (keeps_receive _ m answer).result?_eq_none hBegun
    | succ n =>
      rw [start_of_later hReply]
      exact hBegun

end Enroll.Progress
