import Enroll.Proofs.Exchange.Agenda

/-!
# What an alarm does to a wait

With a response at hand an exchange may still wait: for the rest of the body, for its release, for
a pause to pass, or for nothing at all. An alarm gives what is waited for, or it leaves all but the
body as it is. So what the wait comes to can be read off the alarms in their order
(`Stage.awaited`).
-/

namespace Enroll

def BodyState.rung (b : BodyState) : Purpose → BodyState
  | .item h => b.hear h
  | _ => b

def Purpose.isPlain : Purpose → Bool
  | .item _ | .pause => true
  | _ => false

theorem BodyState.read?_eq_none_iff {b : BodyState} :
    b.read? = none ↔ ∃ heard release, b = .open heard release := by
  cases b <;> simp [read?]

namespace Stage

variable {β : Type}

/-- Whether something that takes its time is waited for, with a response at hand. -/
def waits : Stage β → Bool
  | .reading _ | .discarding _ | .pausing _ | .stuck => true
  | _ => false

/-- Whether giving up the request ends the wait. -/
def heeds : Stage β → Bool
  | .reading _ | .discarding _ => true
  | _ => false

/-- What an alarm ends the wait with, if it does. -/
def gives (b : BodyState) : Stage β → Purpose → Option (Except Failure β)
  | .reading value, .item h => (b.hear h).read?.map fun r => r.map value
  | .pausing r, .pause => some r
  | _, _ => none

/-- What the wait comes to, by the alarms in their order. -/
def awaited (stage : Stage β) (b : BodyState) : List Alarm → Course (Except Failure β)
  | [] => none
  | a :: rest =>
    match stage.gives b a.purpose with
    | some r => some (a.due, r)
    | none => stage.awaited (b.rung a.purpose) rest

theorem atHand_of_waits {stage : Stage β} (h : stage.waits) : stage.atHand = false := by
  cases stage <;> simp_all [waits, atHand]

theorem mem_of_awaited {stage : Stage β} {b : BodyState} {alarms : List Alarm} {t : Nat}
    {r : Except Failure β} (h : stage.awaited b alarms = some (t, r)) :
    ∃ a ∈ alarms, a.due = t := by
  induction alarms generalizing b with
  | nil => simp [awaited] at h
  | cons a rest ih =>
    rw [awaited] at h
    split at h
    · obtain ⟨rfl, rfl⟩ : a.due = t ∧ _ = r := by simpa using h
      exact ⟨a, List.mem_cons_self, rfl⟩
    · obtain ⟨c, hc, hDue⟩ := ih h
      exact ⟨c, List.mem_cons_of_mem _ hc, hDue⟩

/-- Who does not read does not care how the body stands. -/
theorem awaited_congr {stage : Stage β} (hIdle : ∀ value, stage ≠ .reading value)
    (b b' : BodyState) (alarms : List Alarm) :
    stage.awaited b alarms = stage.awaited b' alarms := by
  induction alarms generalizing b b' with
  | nil => rfl
  | cons a rest ih =>
    have hGives : stage.gives b a.purpose = stage.gives b' a.purpose := by
      cases stage with
      | reading value => exact absurd rfl (hIdle value)
      | pausing r => cases a.purpose <;> rfl
      | _ => rfl
    rw [awaited, awaited, hGives, ih (b.rung a.purpose) (b'.rung a.purpose)]

end Stage

namespace Progress

variable {β : Type}

/-! ## What happens on the body -/

theorem happen_of_idle {p : Progress β} (hIdle : ∀ value, p.stage ≠ .reading value)
    (h : Happening) : p.happen h = { p with body := p.body.hear h } := by
  have hSettled : ∀ (b : BodyState) (r : Except Failure Text),
      bodySettled { p with body := b } r = { p with body := b } := by
    intro b r
    rw [bodySettled]
    cases hStage : p.stage with
    | reading value => exact absurd hStage (hIdle value)
    | _ => rfl
  obtain ⟨x, s, stage, wait, body, aborted, alarms, since⟩ := p
  cases body with
  | «open» heard release =>
    cases h with
    | data bytes => rfl
    | finish => exact hSettled _ _
    | broken f => exact hSettled _ _
  | _ => rfl

theorem happen_of_reading {p : Progress β} {value : Text → β} (hStage : p.stage = .reading value)
    (hUnread : p.body.read? = none) (h : Happening) :
    p.happen h =
      match (p.body.hear h).read? with
      | none => { p with body := p.body.hear h }
      | some r =>
        concludeAfter { p with body := p.body.hear h } (p.body.hear h).readRounds
          (r.map value) := by
  obtain ⟨heard, release, hBody⟩ := BodyState.read?_eq_none_iff.mp hUnread
  cases h with
  | data bytes => simp [happen, hBody, BodyState.hear, BodyState.read?]
  | finish | broken f =>
    simp [happen, hBody, hStage, BodyState.hear, BodyState.read?, bodySettled]

section Ring

variable {p : Progress β} {m : Moment} {purpose : Purpose}

theorem ring_of_gives_none (hUnread : ∀ value, p.stage = .reading value → p.body.read? = none)
    (hPlain : purpose.isPlain) (hGives : p.stage.gives p.body purpose = none) :
    p.ring m purpose = ({ p with body := p.body.rung purpose }, []) := by
  cases purpose with
  | item h =>
    have hHappen : p.happen h = { p with body := p.body.hear h } := by
      by_cases hReading : ∃ value, p.stage = .reading value
      · obtain ⟨value, hStage⟩ := hReading
        have hOpen : (p.body.hear h).read? = none := by
          simpa [hStage, Stage.gives] using hGives
        rw [happen_of_reading hStage (hUnread value hStage), hOpen]
      · exact happen_of_idle (fun value hStage => hReading ⟨value, hStage⟩) h
    rw [ring, hHappen]
    rfl
  | pause =>
    obtain ⟨x, s, stage, wait, body, aborted, alarms, since⟩ := p
    cases stage with
    | pausing r => simp [Stage.gives] at hGives
    | _ => rfl
  | _ => simp [Purpose.isPlain] at hPlain

theorem ring_of_gives_some {r : Except Failure β}
    (hUnread : ∀ value, p.stage = .reading value → p.body.read? = none)
    (hGives : p.stage.gives p.body purpose = some r) :
    ∃ q, p.ring m purpose = (q, []) ∧ q.stage = .concluding r ∧ q.exchange = p.exchange ∧
      q.aborted = p.aborted ∧ q.since = p.since := by
  cases hStage : p.stage with
  | reading value =>
    cases purpose with
    | item h =>
      obtain ⟨text, hRead, rfl⟩ :=
        Option.map_eq_some_iff.mp (by simpa [hStage, Stage.gives] using hGives)
      refine ⟨p.happen h, rfl, ?_⟩
      rw [happen_of_reading hStage (hUnread value hStage), hRead]
      exact ⟨rfl, rfl, rfl, rfl⟩
    | _ => simp [hStage, Stage.gives] at hGives
  | pausing result =>
    cases purpose with
    | pause =>
      obtain rfl : result = r := by simpa [hStage, Stage.gives] using hGives
      exact ⟨p.concludeAfter 1 result, by simp [ring, hStage], rfl, rfl, rfl, rfl⟩
    | _ => simp [hStage, Stage.gives] at hGives
  | _ => simp [hStage, Stage.gives] at hGives

end Ring

/-! ## The request is given up -/

section Withdraw

variable {p : Progress β}

theorem stage_withdraw_of_heeds (hHeeds : p.stage.heeds)
    (hUnread : ∀ value, p.stage = .reading value → p.body.read? = none) :
    p.withdraw.stage = .concluding (.error .aborted) := by
  cases hStage : p.stage with
  | reading value =>
    obtain ⟨heard, release, hBody⟩ := BodyState.read?_eq_none_iff.mp (hUnread value hStage)
    simp only [withdraw, hStage, hBody, bodySettled, concludeAfter]
    rfl
  | discarding value => simp only [withdraw, hStage, concludeAfter]
  | _ => simp [hStage, Stage.heeds] at hHeeds

theorem stage_withdraw_of_waits (hWaits : p.stage.waits) (hHeeds : p.stage.heeds = false) :
    p.withdraw.stage = p.stage := by
  rw [withdraw]
  cases hStage : p.stage <;> simp_all [Stage.waits, Stage.heeds] <;>
    split <;> simp [bodySettled, hStage]

end Withdraw

end Progress

end Enroll
