import Enroll.Proofs.Exchange.Projection

/-!
# Calls together and alone

`Loop.runFor` has fuel enough: it ends where each call that it is run for has finished. So every
call of an errand makes a finished run, and as a call alone makes one too, the two agree. This is
`performAll_solo`: in a list of errands each call comes to what it comes to alone, begun at the
same time.
-/

namespace Enroll

/-- The calls of an errand with what the service does to each. -/
def Errand.calls {α : Type} : Errand α → List (Act (Call α) × Script)
  | .single opening s => [(opening, s)]
  | .several calls => calls

namespace Loop

variable {α : Type}

open Running (shown)

/-! ## The fuel -/

theorem work_step_lt {r : Running α} (m : Moment) (hNext : r.next?.isSome) :
    (r.step m).1.work < r.work := by
  cases hProgress : r.progress with
  | none => simp [Running.next?, hProgress] at hNext
  | some p =>
    have hLess := Progress.work_step_lt (p := p) m (by simpa [Running.next?, hProgress] using hNext)
    have hKept : (r.step m).1.progress = some (p.step m).1 := by
      rw [Running.step_of_progress hProgress]
      exact Running.progress_settle r (p.step m).1 m
    simpa [Running.work, hProgress, hKept] using hLess

theorem InStep.work_lt {l l' : Loop α} {notes : List Note} (hl : l.InStep)
    (hStep : l.step? = some (l', notes)) : l'.work < l.work := by
  obtain ⟨place, r, m, hr, hMoves, hCalls, -, -, -⟩ := hl.step?_eq_some hStep
  have hNext : r.next?.isSome := by
    rw [Running.MovesAt, Option.map_eq_some_iff] at hMoves
    obtain ⟨next, hNext, -⟩ := hMoves
    simp [hNext]
  have hLess := work_step_lt m hNext
  have hSum := sumOf_set Running.work hr (r.step m).1
  rw [work, work, hCalls]
  omega

def FinishedFrom (place : Nat) (l : Loop α) : Prop :=
  ∀ i r, place ≤ i → l.calls[i]? = some r → r.Finished

theorem finishedFrom_of_settled {l : Loop α} {place : Nat}
    (h : l.settledFrom place || l.restsFrom place) : FinishedFrom place l := by
  intro i r hi hr
  have hMem : r ∈ l.calls.drop place := by
    refine List.mem_of_getElem? (i := i - place) ?_
    rwa [List.getElem?_drop, Nat.add_sub_cancel' hi]
  rcases Bool.or_eq_true_iff.mp h with h | h
  · exact .inl (List.all_eq_true.mp h r hMem)
  · exact .inr (by simpa using List.all_eq_true.mp h r hMem)

theorem moves_runFor (place fuel : Nat) (l : Loop α) :
    Moves l (runFor place fuel l).2 (runFor place fuel l).1 := by
  induction fuel generalizing l with
  | zero => exact .refl l
  | succ fuel ih =>
    rw [runFor]
    split
    · exact .refl l
    · cases hStep : l.step? with
      | none => exact .refl l
      | some next => exact .move hStep (ih next.1)

theorem finished_runFor {place fuel : Nat} {l : Loop α} (hl : l.InStep) (hFuel : l.work ≤ fuel) :
    FinishedFrom place (runFor place fuel l).1 := by
  have hRests : ∀ l : Loop α, l.step? = none → FinishedFrom place l := fun l hNone i r _ hr =>
    .inr (step?_eq_none_iff.mp hNone r (List.mem_of_getElem? hr))
  induction fuel generalizing l with
  | zero =>
    -- a move would leave less than no work
    refine hRests l (Option.eq_none_iff_forall_ne_some.mpr fun next hStep => ?_)
    have hLess := hl.work_lt hStep
    omega
  | succ fuel ih =>
    rw [runFor]
    split
    · rename_i hSettled
      exact finishedFrom_of_settled hSettled
    · cases hStep : l.step? with
      | none => exact hRests l hStep
      | some next =>
        have hLess := hl.work_lt hStep
        exact ih (hl.step hStep) (by omega)

/-! ## Beginning -/

theorem call_beginAll (l : Loop α) (calls : List (Act (Call α) × Script)) :
    ∀ n ∈ (l.beginAll calls).2,
      l.calls.length ≤ n.call ∧ n.call < l.calls.length + calls.length := by
  induction calls generalizing l with
  | nil => simp [beginAll]
  | cons first rest ih =>
    obtain ⟨opening, s⟩ := first
    intro n hn
    rw [beginAll] at hn
    rw [List.length_cons]
    rcases List.mem_append.mp hn with hn | hn
    · rw [call_of_mem_note hn]
      omega
    · have hRange := ih _ n hn
      simp only [beginOne, List.length_append, List.length_singleton] at hRange
      omega

theorem calls_beginAll (l : Loop α) (calls : List (Act (Call α) × Script)) :
    ∃ begun : List (Running α), (l.beginAll calls).1.calls = l.calls ++ begun ∧
      begun.length = calls.length ∧ ∀ i opening s, calls[i]? = some (opening, s) →
        ∃ m : Moment, m.now = l.moment.now ∧
          begun[i]? = some (Running.start opening s m).1 ∧
          eventsOf (l.calls.length + i) (l.beginAll calls).2 =
            shown m (Running.start opening s m).2 := by
  induction calls generalizing l with
  | nil => exact ⟨[], by simp [beginAll], rfl, by simp⟩
  | cons first rest ih =>
    obtain ⟨opening, s⟩ := first
    have hLength : (l.beginOne opening s).1.calls.length = l.calls.length + 1 := by simp [beginOne]
    obtain ⟨begun, hCalls, hBegun, hEach⟩ := ih (l.beginOne opening s).1
    refine ⟨(Running.start opening s l.moment).1 :: begun, ?_, by simp [hBegun], ?_⟩
    · rw [beginAll, hCalls]
      simp [beginOne]
    · intro i opening' s' hi
      rw [beginAll, eventsOf_append]
      cases i with
      | zero =>
        obtain ⟨rfl, rfl⟩ : opening = opening' ∧ s = s' := by simpa using hi
        refine ⟨l.moment, rfl, rfl, ?_⟩
        have hLater :
            eventsOf (l.calls.length + 0) ((l.beginOne opening s).1.beginAll rest).2 = [] :=
          eventsOf_eq_nil fun n hn => by
            have hRange := (call_beginAll _ rest n hn).1
            omega
        rw [hLater, List.append_nil]
        exact eventsOf_note_self _ _ _
      | succ i =>
        obtain ⟨m, hNow, hStart, hEvents⟩ := hEach i opening' s' (by simpa using hi)
        refine ⟨m, hNow, by simpa using hStart, ?_⟩
        rw [hLength] at hEvents
        rw [show l.calls.length + (i + 1) = l.calls.length + 1 + i by omega, hEvents,
          beginOne, eventsOf_note_of_ne (by omega)]
        rfl

theorem InStep.beginAll {l : Loop α} (hl : l.InStep) (calls : List (Act (Call α) × Script)) :
    (l.beginAll calls).1.InStep := by
  induction calls generalizing l with
  | nil => exact hl
  | cons first rest ih =>
    obtain ⟨opening, s⟩ := first
    rw [Loop.beginAll]
    apply ih
    constructor
    · intro r hr
      rcases List.mem_append.mp hr with hr | hr
      · exact hl.sound r hr
      · obtain rfl := List.mem_singleton.mp hr
        exact Running.sound_start opening s l.moment
    · intro r hr next hNext
      rcases List.mem_append.mp hr with hr | hr
      · exact hl.timely r hr next hNext
      · obtain rfl := List.mem_singleton.mp hr
        exact @Running.start_timely _ opening s l.moment next hNext

theorem inStep_startingAt (now : Nat) : (startingAt now : Loop α).InStep :=
  ⟨by simp [startingAt], by simp [startingAt]⟩

/-! ## One errand -/

theorem together_eq (l : Loop α) (calls : List (Act (Call α) × Script)) :
    ∃ rest, Moves (l.beginAll calls).1 rest (l.together calls).1 ∧
      (l.together calls).2.notes = (l.beginAll calls).2 ++ rest ∧
      (l.InStep → FinishedFrom l.calls.length (l.together calls).1) :=
  ⟨_, moves_runFor l.calls.length _ _, rfl,
    fun hl => finished_runFor (hl.beginAll calls) (Nat.le_refl _)⟩

theorem InStep.together {l : Loop α} (hl : l.InStep) (calls : List (Act (Call α) × Script)) :
    (l.together calls).1.InStep := by
  obtain ⟨rest, hMoves, -, -⟩ := together_eq l calls
  exact hMoves.inStep (hl.beginAll calls)

theorem InStep.length_together {l : Loop α} (hl : l.InStep)
    (calls : List (Act (Call α) × Script)) :
    (l.together calls).1.calls.length = l.calls.length + calls.length := by
  obtain ⟨rest, hMoves, -, -⟩ := together_eq l calls
  obtain ⟨begun, hCalls, hLength, -⟩ := calls_beginAll l calls
  rw [hMoves.length_calls (hl.beginAll calls), hCalls, List.length_append, hLength]

/-- A call of an errand makes a finished run from where it began. -/
theorem InStep.run_of_together {l : Loop α} (hl : l.InStep)
    {calls : List (Act (Call α) × Script)} {i : Nat} {opening : Act (Call α)} {s : Script}
    (hCall : calls[i]? = some (opening, s)) :
    ∃ m q es, m.now = l.moment.now ∧
      Running.Runs (Running.start opening s m).1 es q ∧ q.Finished ∧
      (l.together calls).1.calls[l.calls.length + i]? = some q ∧
      eventsOf (l.calls.length + i) (l.together calls).2.notes =
        shown m (Running.start opening s m).2 ++ es := by
  obtain ⟨rest, hMoves, hNotes, hFinished⟩ := together_eq l calls
  obtain ⟨begun, hCalls, hLength, hEach⟩ := calls_beginAll l calls
  obtain ⟨m, hNow, hStart, hEvents⟩ := hEach i opening s hCall
  have hBegun : (l.beginAll calls).1.calls[l.calls.length + i]? =
      some (Running.start opening s m).1 := by
    rw [hCalls, List.getElem?_append_right (Nat.le_add_right _ _), Nat.add_sub_cancel_left]
    exact hStart
  obtain ⟨q, hEnd, hRuns⟩ := hMoves.project (hl.beginAll calls) hBegun
  refine ⟨m, q, _, hNow, hRuns, hFinished hl _ q (Nat.le_add_right _ _) hEnd, hEnd, ?_⟩
  rw [hNotes, eventsOf_append, hEvents]

theorem results_together (l : Loop α) (calls : List (Act (Call α) × Script)) (i : Nat) :
    (l.together calls).2.results[i]? =
      (l.together calls).1.calls[l.calls.length + i]?.map Running.settled := by
  simp [together, List.getElem?_drop]

theorem InStep.call_together {l : Loop α} (hl : l.InStep)
    (calls : List (Act (Call α) × Script)) :
    ∀ n ∈ (l.together calls).2.notes, n.call < l.calls.length + calls.length := by
  obtain ⟨rest, hMoves, hNotes, -⟩ := together_eq l calls
  obtain ⟨begun, hCalls, hLength, -⟩ := calls_beginAll l calls
  intro n hn
  rw [hNotes] at hn
  rcases List.mem_append.mp hn with hn | hn
  · exact (call_beginAll l calls n hn).2
  · have hLess := hMoves.call_lt (hl.beginAll calls) n hn
    rwa [hCalls, List.length_append, hLength] at hLess

theorem InStep.silent_of_finished {l : Loop α} (hl : l.InStep)
    (calls : List (Act (Call α) × Script)) {call : Nat} {r : Running α}
    (hr : l.calls[call]? = some r) (hFinished : r.Finished) :
    eventsOf call (l.together calls).2.notes = [] ∧
      ∃ q, (l.together calls).1.calls[call]? = some q ∧ q.Finished := by
  obtain ⟨rest, hMoves, hNotes, -⟩ := together_eq l calls
  obtain ⟨begun, hCalls, -, -⟩ := calls_beginAll l calls
  have hPlace := (List.getElem?_eq_some_iff.mp hr).1
  have hKept : (l.beginAll calls).1.calls[call]? = some r := by
    rw [hCalls, List.getElem?_append_left hPlace]
    exact hr
  have hSound := hl.sound r (List.mem_of_getElem? hr)
  obtain ⟨q, hEnd, hRuns⟩ := hMoves.project (hl.beginAll calls) hKept
  have hBegun : eventsOf call (l.beginAll calls).2 = [] := eventsOf_eq_nil fun n hn => by
    have hRange := (call_beginAll l calls n hn).1
    omega
  refine ⟨?_, q, hEnd, hRuns.finished hSound hFinished⟩
  rw [hNotes, eventsOf_append, hBegun, (hRuns.of_finished hSound hFinished).1]
  rfl

/-! ## One call alone -/

/-- What a call alone comes to is what any of its finished runs comes to. -/
theorem soloAt_of_run {now : Nat} {opening : Act (Call α)} {s : Script} {m : Moment}
    {q : Running α} {es : List Event} (hNow : m.now = now)
    (hRuns : Running.Runs (Running.start opening s m).1 es q) (hFinished : q.Finished) :
    (soloAt now opening s).results = [q.settled] ∧ (soloAt now opening s).pending = q.pending ∧
      (soloAt now opening s).notes.map Note.event =
        shown m (Running.start opening s m).2 ++ es := by
  subst hNow
  have hAlone := inStep_startingAt (α := α) m.now
  obtain ⟨m', q', es', hMoment, hRuns', hFinished', hEnd, hEvents⟩ :=
    hAlone.run_of_together (show [(opening, s)][0]? = some (opening, s) from rfl)
  have hNow : m'.now = m.now := hMoment
  obtain ⟨hStart, hOpening⟩ := Running.start_congr opening s hNow
  obtain ⟨hSame, hSettled, hPending⟩ := hRuns'.unique hStart (Running.sound_start _ _ _)
    (Running.sound_start _ _ _) hRuns hFinished' hFinished
  have hCalls : ((startingAt m.now).together [(opening, s)]).1.calls = [q'] := by
    have hLength := hAlone.length_together [(opening, s)]
    obtain ⟨only, hOnly⟩ := List.length_eq_one_iff.mp hLength
    rw [hOnly] at hEnd
    rw [hOnly, Option.some.inj hEnd]
  have hZero : ∀ n ∈ (soloAt m.now opening s).notes, n.call = 0 := fun n hn =>
    Nat.lt_one_iff.mp (hAlone.call_together [(opening, s)] n hn)
  refine ⟨?_, ?_, ?_⟩
  · change (List.drop 0 ((startingAt m.now).together [(opening, s)]).1.calls).map _ = _
    rw [hCalls, ← hSettled]
    rfl
  · change sumOf _ (List.drop 0 ((startingAt m.now).together [(opening, s)]).1.calls) = _
    rw [hCalls, ← hPending]
    rfl
  · rw [← eventsOf_eq_map hZero]
    refine hEvents.trans ?_
    rw [hOpening, hSame, shown, shown, hNow]

/-- Nothing shows any more once a call alone has come to its end. -/
theorem silent_after_solo {now : Nat} {opening : Act (Call α)} {s : Script} {notes : List Note}
    {l : Loop α} (hMoves : Moves ((startingAt now).perform (.single opening s)).1 notes l) :
    notes = [] := by
  have hAlone := inStep_startingAt (α := α) now
  have hEnded := hAlone.together [(opening, s)]
  obtain ⟨m, q, es, -, hRuns, hFinished, hEnd, -⟩ :=
    hAlone.run_of_together (show [(opening, s)][0]? = some (opening, s) from rfl)
  have hZero : ∀ n ∈ notes, n.call = 0 := fun n hn => by
    have hLess := hMoves.call_lt hEnded n hn
    rw [perform, hAlone.length_together] at hLess
    exact Nat.lt_one_iff.mp hLess
  obtain ⟨q', -, hRest⟩ := hMoves.project hEnded hEnd
  have hNothing : eventsOf 0 notes = [] :=
    (hRest.of_finished (hRuns.sound (Running.sound_start _ _ _)) hFinished).1
  rw [eventsOf_eq_map hZero] at hNothing
  exact List.map_eq_nil_iff.mp hNothing

theorem time_of_settled_step {r : Running α} {m : Moment} {settled : Settled α}
    (hOpen : r.settled = none) (h : (r.step m).1.settled = some settled) :
    settled.time = m.now := by
  cases hProgress : r.progress with
  | none => simp [Running.step, hProgress, hOpen] at h
  | some p =>
    rw [Running.step_of_progress hProgress] at h
    cases hResult : (p.step m).1.result? with
    | none => simp [Running.settle_of_none hResult, hOpen] at h
    | some result =>
      rw [Running.settle_of_result hOpen hResult] at h
      obtain rfl := Option.some.inj h
      rfl

/-- There is one call, and if it is settled, it was settled when the clock was left. -/
def LeftWhenSettled (l : Loop α) : Prop :=
  ∃ r, l.calls = [r] ∧ ∀ settled, r.settled = some settled → settled.time = l.moment.now

theorem leftWhenSettled_runFor (fuel : Nat) {l : Loop α} (hl : l.InStep)
    (h : LeftWhenSettled l) : LeftWhenSettled (runFor 0 fuel l).1 := by
  -- a loop that goes on holds an open call, so only its next move can settle it
  induction fuel generalizing l with
  | zero => exact h
  | succ fuel ih =>
    rw [runFor]
    split
    · exact h
    · rename_i hGoesOn
      cases hStep : l.step? with
      | none => exact h
      | some next =>
        apply ih (hl.step hStep)
        obtain ⟨r, hOnly, -⟩ := h
        obtain ⟨place, r', m, hr, -, hCalls, hNow, -, -⟩ := hl.step?_eq_some hStep
        rw [hOnly] at hr hCalls
        obtain ⟨rfl, rfl⟩ : place = 0 ∧ r = r' := by
          cases place with
          | zero => exact ⟨rfl, by simpa using hr⟩
          | succ place => simp at hr
        have hOpen : r.settled = none := by
          simp only [settledFrom, hOnly] at hGoesOn
          cases hSettled : r.settled <;> simp_all
        refine ⟨_, hCalls, fun settled hSettled => ?_⟩
        rw [hNow]
        exact time_of_settled_step hOpen hSettled

/-- An errand of one call ends when the call settles. -/
theorem time_soloAt {now : Nat} {opening : Act (Call α)} {s : Script} {settled : Settled α}
    (h : (soloAt now opening s).results = [some settled]) :
    (soloAt now opening s).time = settled.time := by
  let begun := ((startingAt now).beginOne opening s).1
  have hAlone := inStep_startingAt (α := α) now
  have hBegun : LeftWhenSettled begun := by
    refine ⟨(Running.start opening s ⟨now, 0, 0⟩).1, rfl, fun early hEarly => ?_⟩
    unfold Running.start at hEarly
    split at hEarly
    · obtain rfl := Option.some.inj hEarly
      rfl
    · simp at hEarly
  have hInStep : begun.InStep := hAlone.beginAll [(opening, s)]
  obtain ⟨r, hOnly, hTime⟩ := leftWhenSettled_runFor begun.work hInStep hBegun
  have hResults : (soloAt now opening s).results =
      (runFor 0 begun.work begun).1.calls.map Running.settled := rfl
  rw [hResults, hOnly] at h
  exact (hTime settled (by simpa using h)).symm

/-- A call beside others comes to what it comes to alone. -/
theorem InStep.together_solo {l : Loop α} (hl : l.InStep)
    {calls : List (Act (Call α) × Script)} {i : Nat} {opening : Act (Call α)} {s : Script}
    (hCall : calls[i]? = some (opening, s)) :
    ∃ settled, (soloAt l.moment.now opening s).results = [settled] ∧
      (l.together calls).2.results[i]? = some settled ∧
      eventsOf (l.calls.length + i) (l.together calls).2.notes =
        (soloAt l.moment.now opening s).notes.map Note.event := by
  obtain ⟨m, q, es, hNow, hRuns, hFinished, hEnd, hEvents⟩ := hl.run_of_together hCall
  obtain ⟨hResults, -, hNotes⟩ := soloAt_of_run hNow hRuns hFinished
  refine ⟨q.settled, hResults, ?_, hEvents.trans hNotes.symm⟩
  rw [results_together, hEnd, Option.map_some]

/-! ## A list of errands -/

theorem perform_eq (l : Loop α) (e : Errand α) : l.perform e = l.together e.calls := by
  cases e <;> rfl

theorem performAll_cons (l : Loop α) (e : Errand α) (rest : List (Errand α)) :
    l.performAll (e :: rest) = (l.perform e).2 ::
      if goesOn e (l.perform e).2 then (l.perform e).1.performAll rest else [] := rfl

/-- The place of a call among all that are begun: those of the errands before come first. -/
def placeOf : List (Errand α) → (errand call : Nat) → Nat
  | _, 0, i => i
  | [], _ + 1, i => i
  | e :: rest, k + 1, i => e.calls.length + placeOf rest k i

/-- When an errand begins: where the one before left the clock. -/
def beganAt (now : Nat) : List (Report α) → (errand : Nat) → Nat
  | _, 0 => now
  | [], _ + 1 => now
  | r :: rest, k + 1 => beganAt r.time rest k

theorem silent_performAll {l : Loop α} (hl : l.InStep) (errands : List (Errand α)) {call : Nat}
    {r : Running α} (hr : l.calls[call]? = some r) (hFinished : r.Finished) :
    eventsOf call ((l.performAll errands).flatMap Report.notes) = [] := by
  induction errands generalizing l r with
  | nil => rfl
  | cons e rest ih =>
    obtain ⟨hFirst, q, hq, hqFinished⟩ := hl.silent_of_finished e.calls hr hFinished
    rw [performAll_cons, List.flatMap_cons, eventsOf_append, perform_eq, hFirst]
    split
    · exact ih (hl.together e.calls) hq hqFinished
    · rfl

/-- In a list of errands each call comes to what it comes to alone, begun at the same time. -/
theorem performAll_solo {l : Loop α} (hl : l.InStep) {errands : List (Errand α)} {k i : Nat}
    {e : Errand α} {opening : Act (Call α)} {s : Script} {report : Report α}
    (hErrand : errands[k]? = some e) (hCall : e.calls[i]? = some (opening, s))
    (hReport : (l.performAll errands)[k]? = some report) :
    ∃ settled,
      (soloAt (beganAt l.moment.now (l.performAll errands) k) opening s).results = [settled] ∧
      report.results[i]? = some settled ∧
      eventsOf (l.calls.length + placeOf errands k i)
          ((l.performAll errands).flatMap Report.notes) =
        (soloAt (beganAt l.moment.now (l.performAll errands) k) opening s).notes.map
          Note.event := by
  induction errands generalizing l k with
  | nil => simp at hErrand
  | cons first rest ih =>
    rw [performAll_cons, perform_eq] at hReport ⊢
    cases k with
    | zero =>
      obtain rfl : first = e := by simpa using hErrand
      obtain rfl : (l.together first.calls).2 = report := by simpa using hReport
      obtain ⟨settled, hAlone, hResult, hEvents⟩ := hl.together_solo hCall
      refine ⟨settled, hAlone, hResult, ?_⟩
      -- the call has finished with its errand, so the errands that follow show nothing more of it
      obtain ⟨m, q, es, -, -, hFinished, hEnd, -⟩ := hl.run_of_together hCall
      have hLater := silent_performAll (hl.together first.calls) rest hEnd hFinished
      rw [List.flatMap_cons, eventsOf_append, placeOf, hEvents]
      split
      · rw [hLater, List.append_nil]
        rfl
      · simp [beganAt]
    | succ k =>
      -- the call is not begun yet: all that the first errand shows is of calls before it
      have hEarlier : eventsOf (l.calls.length + placeOf (first :: rest) (k + 1) i)
          (l.together first.calls).2.notes = [] := eventsOf_eq_nil fun n hn => by
        have hLess := hl.call_together first.calls n hn
        rw [placeOf]
        omega
      rw [List.flatMap_cons, eventsOf_append, hEarlier]
      split
      · rename_i hGoesOn
        rw [if_pos hGoesOn] at hReport
        obtain ⟨settled, hAlone, hResult, hEvents⟩ := ih (hl.together first.calls)
          (by simpa using hErrand) (by simpa using hReport)
        refine ⟨settled, hAlone, hResult, ?_⟩
        rw [hl.length_together, Nat.add_assoc] at hEvents
        exact hEvents
      · rename_i hStops
        rw [if_neg hStops] at hReport
        simp at hReport

end Loop

end Enroll
