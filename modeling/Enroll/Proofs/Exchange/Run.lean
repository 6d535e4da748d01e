import Enroll.Proofs.Exchange.Invariant
import Enroll.Proofs.Exchange.Unranked

/-!
# The run of one call

`Running.Runs r es q` says that the call `r`, moving each time when its next move is due, can come
to `q` and shows the events `es` on the way. Up to rounds and turns there is one such run, so two
runs that have finished agree in what they show and in how the call was settled.
-/

namespace Enroll.Running

variable {α : Type}

def unranked (r : Running α) : Running α :=
  { r with progress := r.progress.map Progress.unranked }

def MovesAt (r : Running α) (m : Moment) : Prop := r.next?.map NextMove.time = some m.now

def shown (m : Moment) (effects : List Effect) : List Event := effects.map (Event.mk m.now)

inductive Runs : Running α → List Event → Running α → Prop where
  | refl (r : Running α) : Runs r [] r
  | move {r q : Running α} {es : List Event} (m : Moment) (hMoves : r.MovesAt m)
      (hRest : Runs (r.step m).1 es q) : Runs r (shown m (r.step m).2 ++ es) q

/-- Settled, or waiting for what will not come. -/
def Finished (r : Running α) : Prop := r.settled.isSome ∨ r.next? = none

/-! ## Settling -/

/-- What the caller does once the exchange is over. -/
def closing (onFailure : Failure → Act α) : Except Failure (Act α) → Act α
  | .ok act => act
  | .error f => onFailure f

section Settling

variable {r : Running α} {p : Progress (Act α)} {m : Moment}

theorem settle_of_settled (hSettled : r.settled.isSome) :
    r.settle p m = ({ r with progress := some p }, []) := by
  obtain ⟨s, hSome⟩ := Option.isSome_iff_exists.mp hSettled
  rw [settle]
  rw [hSome]

theorem settle_of_none (hResult : p.result? = none) :
    r.settle p m = ({ r with progress := some p }, []) := by
  rw [settle]
  rw [hResult]
  cases r.settled <;> rfl

theorem settle_of_result {result : Except Failure (Act α)} (hOpen : r.settled = none)
    (hResult : p.result? = some result) :
    r.settle p m = (⟨some p, r.onFailure, some ⟨(closing r.onFailure result).result, m.now⟩⟩,
      (closing r.onFailure result).effects) := by
  rw [settle]
  rw [hOpen, hResult]
  cases result <;> rfl

end Settling

theorem progress_settle (r : Running α) (p : Progress (Act α)) (m : Moment) :
    (r.settle p m).1.progress = some p := by
  rw [settle]
  split <;> rfl

theorem step_of_progress {r : Running α} {p : Progress (Act α)} (hProgress : r.progress = some p)
    (m : Moment) :
    r.step m = ((r.settle (p.step m).1 m).1, (p.step m).2 ++ (r.settle (p.step m).1 m).2) := by
  simp only [step, hProgress]

/-! ## Rounds and turns -/

theorem settle_unranked (r : Running α) (p : Progress (Act α)) (m : Moment) :
    (r.settle p m).1.unranked = (r.unranked.settle p.unranked m.unranked).1 ∧
      (r.settle p m).2 = (r.unranked.settle p.unranked m.unranked).2 := by
  cases hSettled : r.settled with
  | some s =>
    rw [settle_of_settled (by simp [hSettled]),
      settle_of_settled (r := r.unranked) (by simp [unranked, hSettled])]
    exact ⟨rfl, rfl⟩
  | none =>
    cases hResult : p.result? with
    | none =>
      rw [settle_of_none hResult, settle_of_none (p := p.unranked) hResult]
      exact ⟨rfl, rfl⟩
    | some result =>
      rw [settle_of_result hSettled hResult,
        settle_of_result (r := r.unranked) (p := p.unranked) hSettled hResult]
      exact ⟨rfl, rfl⟩

theorem step_unranked (r : Running α) (m : Moment) :
    (r.step m).1.unranked = (r.unranked.step m.unranked).1 ∧
      (r.step m).2 = (r.unranked.step m.unranked).2 := by
  cases hProgress : r.progress with
  | none =>
    have hUnranked : r.unranked.progress = none := by simp [unranked, hProgress]
    simp [step, hProgress, hUnranked]
  | some p =>
    obtain ⟨hState, hEffects⟩ := Progress.step_unranked p m
    obtain ⟨hSettled, hMore⟩ := settle_unranked r (p.step m).1 m
    rw [step_of_progress hProgress,
      step_of_progress (r := r.unranked) (p := p.unranked) (by simp [unranked, hProgress])]
    rw [hState] at hSettled hMore
    exact ⟨hSettled, by rw [hEffects, hMore]⟩

theorem step_congr {r r' : Running α} {m m' : Moment} (h : r.unranked = r'.unranked)
    (hNow : m.now = m'.now) :
    (r.step m).1.unranked = (r'.step m').1.unranked ∧ (r.step m).2 = (r'.step m').2 := by
  have hMoment : m.unranked = m'.unranked := by simp [Moment.unranked, hNow]
  rw [(step_unranked r m).1, (step_unranked r m).2, (step_unranked r' m').1,
    (step_unranked r' m').2, h, hMoment]
  exact ⟨rfl, rfl⟩

theorem time_next?_congr {r r' : Running α} (h : r.unranked = r'.unranked) :
    r.next?.map NextMove.time = r'.next?.map NextMove.time := by
  have hOne : ∀ r : Running α, r.next?.map NextMove.time = r.unranked.next?.map NextMove.time := by
    intro r
    cases hProgress : r.progress with
    | none => simp [next?, unranked, hProgress]
    | some p => simpa [next?, unranked, hProgress] using (Progress.time_next?_unranked p).symm
  rw [hOne r, hOne r', h]

theorem pending_congr {r r' : Running α} (h : r.unranked = r'.unranked) :
    r.pending = r'.pending := by
  have hOne : ∀ r : Running α, r.pending = r.unranked.pending := by
    intro r
    cases hProgress : r.progress with
    | none => simp [pending, unranked, hProgress]
    | some p => simp [pending, unranked, hProgress, Progress.pending_unranked]
  rw [hOne r, hOne r', h]

theorem settled_congr {r r' : Running α} (h : r.unranked = r'.unranked) :
    r.settled = r'.settled := by
  have hSettled : r.unranked.settled = r'.unranked.settled := by rw [h]
  exact hSettled

/-- Of two runs of one call the longer goes on where the other ends. -/
theorem Runs.confluent {r r' q q' : Running α} {es es' : List Event}
    (h : r.unranked = r'.unranked) (hRun : Runs r es q) (hRun' : Runs r' es' q') :
    (∃ q₁ more, q₁.unranked = q.unranked ∧ Runs r' es q₁ ∧ Runs q₁ more q' ∧ es' = es ++ more) ∨
      (∃ q₁ more, q₁.unranked = q'.unranked ∧ Runs r es' q₁ ∧ Runs q₁ more q ∧
        es = es' ++ more) := by
  induction hRun generalizing r' es' with
  | refl r => exact .inl ⟨r', es', h.symm, .refl r', hRun', rfl⟩
  | @move r q es m hMoves hRest ih =>
    cases hRun' with
    | refl => exact .inr ⟨r, _, h, .refl r, .move m hMoves hRest, rfl⟩
    | @move _ _ es' m' hMoves' hRest' =>
      -- both runs are due at the same time, so they make the same move
      have hNow : m.now = m'.now := by
        have hTime := time_next?_congr h
        rw [MovesAt] at hMoves hMoves'
        rw [hMoves, hMoves'] at hTime
        exact Option.some.inj hTime
      obtain ⟨hState, hEffects⟩ := step_congr h hNow
      have hShown : shown m (r.step m).2 = shown m' (r'.step m').2 := by
        rw [shown, shown, hEffects, hNow]
      rcases ih hState hRest' with
        ⟨q₁, more, hq, hReach, hMore, rfl⟩ | ⟨q₁, more, hq, hReach, hMore, rfl⟩
      · refine .inl ⟨q₁, more, hq, ?_, hMore, by rw [hShown, List.append_assoc]⟩
        exact hShown ▸ .move m' hMoves' hReach
      · refine .inr ⟨q₁, more, hq, ?_, hMore, by rw [hShown, List.append_assoc]⟩
        exact hShown ▸ .move m hMoves hReach

/-! ## What holds along a run -/

structure Sound (r : Running α) : Prop where
  progress : ∀ p, r.progress = some p → p.Sound
  settled : ∀ p, r.progress = some p → (r.settled.isSome ↔ p.result?.isSome)
  failed : r.progress = none → r.settled.isSome

theorem Sound.step {r : Running α} (h : r.Sound) {m : Moment} (hMoves : r.MovesAt m) :
    (r.step m).1.Sound ∧ ∀ next, (r.step m).1.next? = some next → m.now ≤ next.time := by
  cases hProgress : r.progress with
  | none => simp [MovesAt, next?, hProgress] at hMoves
  | some p =>
    have hMovesAt : p.MovesAt m := by
      simpa [MovesAt, next?, hProgress, Progress.MovesAt] using hMoves
    have hSound := (h.progress p hProgress).step hMovesAt
    have hKept : (r.step m).1.progress = some (p.step m).1 ∧
        ((r.step m).1.settled.isSome ↔ (p.step m).1.result?.isSome) := by
      rw [step_of_progress hProgress]
      cases hSettled : r.settled with
      | some s =>
        obtain ⟨result, hResult⟩ := Option.isSome_iff_exists.mp
          ((h.settled p hProgress).mp (by simp [hSettled]))
        have hOver := (h.progress p hProgress).step_of_over
          (m := m) (Progress.result?_eq_some_iff.mp hResult)
        rw [settle_of_settled (by simp [hSettled])]
        exact ⟨rfl, by simp [hSettled, Progress.result?_eq_some_iff.mpr hOver.1]⟩
      | none =>
        cases hResult : (p.step m).1.result? with
        | none =>
          rw [settle_of_none hResult]
          exact ⟨rfl, by simp [hSettled]⟩
        | some result =>
          rw [settle_of_result hSettled hResult]
          exact ⟨rfl, by simp⟩
    constructor
    · refine ⟨fun q hq => ?_, fun q hq => ?_, fun hNone => ?_⟩
      · exact Option.some.inj (hKept.1.symm.trans hq) ▸ hSound
      · exact Option.some.inj (hKept.1.symm.trans hq) ▸ hKept.2
      · simp [hKept.1] at hNone
    · intro next hNext
      have hProgressNext : (p.step m).1.next? = some next := by simpa [next?, hKept.1] using hNext
      have hTime := hSound.since_le hProgressNext
      rwa [Progress.since_step] at hTime

theorem Runs.sound {r q : Running α} {es : List Event} (hRun : Runs r es q) (h : r.Sound) :
    q.Sound := by
  induction hRun with
  | refl r => exact h
  | move m hMoves _ ih => exact ih (h.step hMoves).1

theorem Sound.step_of_settled {r : Running α} (h : r.Sound) (hSettled : r.settled.isSome)
    (m : Moment) : (r.step m).1.settled = r.settled ∧ (r.step m).2 = [] := by
  cases hProgress : r.progress with
  | none => simp [Running.step, hProgress]
  | some p =>
    obtain ⟨result, hResult⟩ := Option.isSome_iff_exists.mp ((h.settled p hProgress).mp hSettled)
    have hOver := (h.progress p hProgress).step_of_over
      (m := m) (Progress.result?_eq_some_iff.mp hResult)
    rw [step_of_progress hProgress, settle_of_settled hSettled, hOver.2]
    exact ⟨rfl, rfl⟩

theorem Sound.pending_of_settled {r : Running α} (h : r.Sound) (hSettled : r.settled.isSome) :
    r.pending = 0 := by
  cases hProgress : r.progress with
  | none => simp [pending, hProgress]
  | some p =>
    obtain ⟨result, hResult⟩ := Option.isSome_iff_exists.mp ((h.settled p hProgress).mp hSettled)
    have hNone := (h.progress p hProgress).pending_of_over (Progress.result?_eq_some_iff.mp hResult)
    simpa [pending, hProgress] using hNone

theorem Runs.of_settled {r q : Running α} {es : List Event} (hRun : Runs r es q) (h : r.Sound)
    (hSettled : r.settled.isSome) : es = [] ∧ q.settled = r.settled := by
  induction hRun with
  | refl r => exact ⟨rfl, rfl⟩
  | @move r q es m hMoves hRest ih =>
    obtain ⟨hStays, hNothing⟩ := h.step_of_settled hSettled m
    obtain ⟨hEvents, hEnd⟩ := ih (h.step hMoves).1 (by rwa [hStays])
    exact ⟨by rw [hNothing, hEvents]; rfl, hEnd.trans hStays⟩

theorem Runs.of_next?_eq_none {r q : Running α} {es : List Event} (hRun : Runs r es q)
    (hNext : r.next? = none) : es = [] ∧ q = r := by
  cases hRun with
  | refl => exact ⟨rfl, rfl⟩
  | move m hMoves hRest => simp [MovesAt, hNext] at hMoves

/-- A call that has finished shows nothing more and stays as it was settled. -/
theorem Runs.of_finished {r q : Running α} {es : List Event} (hRun : Runs r es q) (h : r.Sound)
    (hFinished : r.Finished) : es = [] ∧ q.settled = r.settled ∧ q.pending = r.pending := by
  rcases hFinished with hSettled | hNext
  · obtain ⟨hEvents, hEnd⟩ := hRun.of_settled h hSettled
    refine ⟨hEvents, hEnd, ?_⟩
    rw [h.pending_of_settled hSettled, (hRun.sound h).pending_of_settled (by rwa [hEnd])]
  · obtain ⟨hEvents, rfl⟩ := hRun.of_next?_eq_none hNext
    exact ⟨hEvents, rfl, rfl⟩

theorem Runs.finished {r q : Running α} {es : List Event} (hRun : Runs r es q) (h : r.Sound)
    (hFinished : r.Finished) : q.Finished := by
  rcases hFinished with hSettled | hNext
  · exact .inl (by rwa [(hRun.of_settled h hSettled).2])
  · rw [(hRun.of_next?_eq_none hNext).2]
    exact .inr hNext

theorem finished_congr {r r' : Running α} (h : r.unranked = r'.unranked) (hFinished : r.Finished) :
    r'.Finished := by
  rcases hFinished with hSettled | hNext
  · exact .inl (settled_congr h ▸ hSettled)
  · have hTime := time_next?_congr h
    rw [hNext] at hTime
    exact .inr (Option.map_eq_none_iff.mp hTime.symm)

/-- All finished runs of one call show the same and end alike. -/
theorem Runs.unique {r r' q q' : Running α} {es es' : List Event} (h : r.unranked = r'.unranked)
    (hSound : r.Sound) (hSound' : r'.Sound) (hRun : Runs r es q) (hRun' : Runs r' es' q')
    (hFinished : q.Finished) (hFinished' : q'.Finished) :
    es = es' ∧ q.settled = q'.settled ∧ q.pending = q'.pending := by
  rcases hRun.confluent h hRun' with
    ⟨q₁, more, hq, hReach, hMore, rfl⟩ | ⟨q₁, more, hq, hReach, hMore, rfl⟩
  · obtain ⟨rfl, hSettled, hPending⟩ :=
      hMore.of_finished (hReach.sound hSound') (finished_congr hq.symm hFinished)
    exact ⟨by simp, by rw [hSettled, settled_congr hq], by rw [hPending, pending_congr hq]⟩
  · obtain ⟨rfl, hSettled, hPending⟩ :=
      hMore.of_finished (hReach.sound hSound) (finished_congr hq.symm hFinished')
    exact ⟨by simp, by rw [hSettled, settled_congr hq], by rw [hPending, pending_congr hq]⟩

/-! ## Starting -/

theorem sound_start (opening : Act (Call α)) (s : Script) (m : Moment) :
    (start opening s m).1.Sound := by
  rw [start]
  cases opening.result with
  | error f => exact ⟨by simp, by simp, by simp⟩
  | ok c =>
    refine ⟨fun p hp => ?_, fun p hp => ?_, by simp⟩
    · obtain rfl := Option.some.inj hp
      exact Progress.sound_start c.exchange s m
    · obtain rfl := Option.some.inj hp
      simp [Progress.result?_start]

theorem start_timely {opening : Act (Call α)} {s : Script} {m : Moment} {next : NextMove}
    (hNext : (start opening s m).1.next? = some next) : m.now ≤ next.time := by
  unfold start at hNext
  cases hResult : opening.result with
  | error f => simp [hResult, next?] at hNext
  | ok c =>
    have hProgressNext : (Progress.start c.exchange s m).1.next? = some next := by
      simpa [hResult, next?] using hNext
    have hLate := (Progress.sound_start c.exchange s m).since_le hProgressNext
    rwa [Progress.since_start] at hLate

theorem start_congr (opening : Act (Call α)) (s : Script) {m m' : Moment} (hNow : m.now = m'.now) :
    (start opening s m).1.unranked = (start opening s m').1.unranked ∧
      (start opening s m).2 = (start opening s m').2 := by
  have hMoment : m.unranked = m'.unranked := by simp [Moment.unranked, hNow]
  unfold start
  cases opening.result with
  | error f => simp [unranked, hNow]
  | ok c =>
    have hState := Progress.start_unranked c.exchange s m
    have hState' := Progress.start_unranked c.exchange s m'
    refine ⟨?_, rfl⟩
    simp only [unranked, Option.map_some]
    rw [hState, hState', hMoment]

end Enroll.Running
