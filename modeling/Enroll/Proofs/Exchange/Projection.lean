import Enroll.Proofs.Exchange.Run

/-!
# The loop, seen from one call

Whatever other calls the loop holds, one call makes in it a run of its own: each of its moves comes
when it is due, and no other move touches it (`Moves.project`).
-/

namespace Enroll.Loop

variable {α : Type}

open Running (shown)

/-- The loop can come from `l` to `l'` by moves, with these notes. -/
inductive Moves : Loop α → List Note → Loop α → Prop where
  | refl (l : Loop α) : Moves l [] l
  | move {l l' l'' : Loop α} {notes more : List Note} (hStep : l.step? = some (l', notes))
      (hRest : Moves l' more l'') : Moves l (notes ++ more) l''

/-- What one call showed, in order. -/
def eventsOf (call : Nat) (notes : List Note) : List Event :=
  (notes.filter fun n => n.call == call).map Note.event

@[simp] theorem eventsOf_nil (call : Nat) : eventsOf call [] = [] := rfl

@[simp] theorem eventsOf_append (call : Nat) (notes more : List Note) :
    eventsOf call (notes ++ more) = eventsOf call notes ++ eventsOf call more := by
  simp [eventsOf]

theorem eventsOf_eq_nil {call : Nat} {notes : List Note} (h : ∀ n ∈ notes, n.call ≠ call) :
    eventsOf call notes = [] := by
  have hNone : notes.filter (fun n => n.call == call) = [] :=
    List.filter_eq_nil_iff.mpr fun n hn => by simpa using h n hn
  rw [eventsOf, hNone, List.map_nil]

theorem eventsOf_eq_map {call : Nat} {notes : List Note} (h : ∀ n ∈ notes, n.call = call) :
    eventsOf call notes = notes.map Note.event := by
  rw [eventsOf, List.filter_eq_self.mpr fun n hn => by simpa using h n hn]

theorem call_of_mem_note {call time : Nat} {effects : List Effect} {n : Note}
    (h : n ∈ note call time effects) : n.call = call := by
  obtain ⟨e, -, rfl⟩ := List.mem_map.mp h
  rfl

theorem eventsOf_note_self (call : Nat) (m : Moment) (effects : List Effect) :
    eventsOf call (note call m.now effects) = shown m effects := by
  rw [eventsOf_eq_map fun n => call_of_mem_note]
  simp [note, shown]

theorem eventsOf_note_of_ne {call other : Nat} (h : other ≠ call) (time : Nat)
    (effects : List Effect) : eventsOf call (note other time effects) = [] :=
  eventsOf_eq_nil fun _ hn => call_of_mem_note hn ▸ h

/-! ## Which call moves -/

theorem time_le_of_before {a b : NextMove} (h : a.before b = true) : a.time ≤ b.time := by
  simp only [NextMove.before, Bool.or_eq_true, Bool.and_eq_true, decide_eq_true_eq,
    beq_iff_eq] at h
  omega

theorem time_le_of_not_before {a b : NextMove} (h : ¬ a.before b = true) : b.time ≤ a.time := by
  simp only [NextMove.before, Bool.or_eq_true, Bool.and_eq_true, decide_eq_true_eq,
    beq_iff_eq] at h
  omega

theorem firstFrom_eq_none_iff {place : Nat} {calls : List (Running α)} :
    firstFrom place calls = none ↔ ∀ r ∈ calls, r.next? = none := by
  induction calls generalizing place with
  | nil => simp [firstFrom]
  | cons r rest ih =>
    rw [List.forall_mem_cons, ← @ih (place + 1), firstFrom]
    cases r.next? with
    | none => simp
    | some m =>
      cases firstFrom (place + 1) rest with
      | none => simp
      | some later => dsimp only; split <;> simp

theorem time_le_of_next? {r : Running α} {m : NextMove} {t : Nat} (hNext : r.next? = some m)
    (hTime : t ≤ m.time) : ∀ next, r.next? = some next → t ≤ next.time := by
  intro next hr
  obtain rfl := Option.some.inj (hNext.symm.trans hr)
  exact hTime

theorem firstFrom_eq_some {place i : Nat} {calls : List (Running α)} {next : NextMove}
    (h : firstFrom place calls = some (i, next)) :
    ∃ j r, i = place + j ∧ calls[j]? = some r ∧ r.next? = some next ∧
      ∀ r' ∈ calls, ∀ next', r'.next? = some next' → next.time ≤ next'.time := by
  induction calls generalizing place i next with
  | nil => simp [firstFrom] at h
  | cons r rest ih =>
    rw [firstFrom] at h
    cases hNext : r.next? with
    | none =>
      rw [hNext] at h
      obtain ⟨j, q, rfl, hq, hqNext, hLeast⟩ := ih h
      refine ⟨j + 1, q, by omega, by simpa using hq, hqNext, List.forall_mem_cons.mpr ⟨?_, hLeast⟩⟩
      simp [hNext]
    | some m =>
      rw [hNext] at h
      cases hLater : firstFrom (place + 1) rest with
      | none =>
        rw [hLater] at h
        obtain ⟨rfl, rfl⟩ : place = i ∧ m = next := by simpa using h
        refine ⟨0, r, rfl, rfl, hNext, List.forall_mem_cons.mpr ⟨?_, ?_⟩⟩
        · exact time_le_of_next? hNext (Nat.le_refl _)
        · intro r' hr' next' hr'Next
          simp [firstFrom_eq_none_iff.mp hLater r' hr'] at hr'Next
      | some later =>
        obtain ⟨k, b⟩ := later
        obtain ⟨j, q, rfl, hq, hqNext, hLeast⟩ := ih hLater
        rw [hLater] at h
        dsimp only at h
        split at h
        · rename_i hBefore
          obtain ⟨rfl, rfl⟩ : place + 1 + j = i ∧ b = next := by simpa using h
          refine ⟨j + 1, q, by omega, by simpa using hq, hqNext,
            List.forall_mem_cons.mpr ⟨?_, hLeast⟩⟩
          exact time_le_of_next? hNext (time_le_of_before hBefore)
        · rename_i hBefore
          obtain ⟨rfl, rfl⟩ : place = i ∧ m = next := by simpa using h
          refine ⟨0, r, rfl, rfl, hNext, List.forall_mem_cons.mpr ⟨?_, ?_⟩⟩
          · exact time_le_of_next? hNext (Nat.le_refl _)
          · intro r' hr' next' hr'Next
            have hRest := hLeast r' hr' next' hr'Next
            exact Nat.le_trans (time_le_of_not_before hBefore) hRest

/-- The clock is behind no call. -/
structure InStep (l : Loop α) : Prop where
  sound : ∀ r ∈ l.calls, r.Sound
  timely : ∀ r ∈ l.calls, ∀ next, r.next? = some next → l.moment.now ≤ next.time

theorem step?_eq_none_iff {l : Loop α} : l.step? = none ↔ ∀ r ∈ l.calls, r.next? = none := by
  simp [step?, first?, firstFrom_eq_none_iff]

/-- A move of the loop is the move of one call in its time. -/
theorem InStep.step?_eq_some {l l' : Loop α} {notes : List Note} (hl : l.InStep)
    (hStep : l.step? = some (l', notes)) :
    ∃ place r m, l.calls[place]? = some r ∧ r.MovesAt m ∧
      l'.calls = l.calls.set place (r.step m).1 ∧ l'.moment.now = m.now ∧
      notes = note place m.now (r.step m).2 ∧
      ∀ r' ∈ l.calls, ∀ next, r'.next? = some next → m.now ≤ next.time := by
  obtain ⟨⟨place, next⟩, hFirst, hMove⟩ := Option.map_eq_some_iff.mp hStep
  obtain ⟨j, r, hPlace, hr, hNext, hLeast⟩ := firstFrom_eq_some hFirst
  obtain rfl : place = j := by omega
  have hNow : (l.momentOf next).now = next.time :=
    Nat.max_eq_right (hl.timely r (List.mem_of_getElem? hr) next hNext)
  refine ⟨place, r, l.momentOf next, hr, by simp [Running.MovesAt, hNext, hNow], ?_⟩
  simp only [moveCall, hr] at hMove
  obtain ⟨rfl, rfl⟩ := Prod.mk.inj hMove
  exact ⟨rfl, rfl, rfl, hNow ▸ hLeast⟩

theorem InStep.step {l l' : Loop α} {notes : List Note} (hl : l.InStep)
    (hStep : l.step? = some (l', notes)) : l'.InStep := by
  obtain ⟨place, r, m, hr, hMoves, hCalls, hNow, -, hLeast⟩ := hl.step?_eq_some hStep
  obtain ⟨hSound, hTime⟩ := (hl.sound r (List.mem_of_getElem? hr)).step hMoves
  constructor
  · intro q hq
    rw [hCalls] at hq
    rcases List.mem_or_eq_of_mem_set hq with hq | rfl
    · exact hl.sound q hq
    · exact hSound
  · intro q hq next hNext
    rw [hCalls] at hq
    rw [hNow]
    rcases List.mem_or_eq_of_mem_set hq with hq | rfl
    · exact hLeast q hq next hNext
    · exact hTime next hNext

theorem Moves.inStep {l l' : Loop α} {notes : List Note} (h : Moves l notes l') (hl : l.InStep) :
    l'.InStep := by
  induction h with
  | refl l => exact hl
  | move hStep _ ih => exact ih (hl.step hStep)

/-! ## One call of many -/

theorem Moves.length_calls {l l' : Loop α} {notes : List Note} (h : Moves l notes l')
    (hl : l.InStep) : l'.calls.length = l.calls.length := by
  induction h with
  | refl l => rfl
  | move hStep _ ih =>
    obtain ⟨place, r, m, -, -, hCalls, -, -, -⟩ := hl.step?_eq_some hStep
    rw [ih (hl.step hStep), hCalls, List.length_set]

/-- What the loop does with a call is a run of that call. -/
theorem Moves.project {l l' : Loop α} {notes : List Note} (h : Moves l notes l') (hl : l.InStep)
    {call : Nat} {r : Running α} (hr : l.calls[call]? = some r) :
    ∃ q, l'.calls[call]? = some q ∧ Running.Runs r (eventsOf call notes) q := by
  induction h generalizing r with
  | refl l => exact ⟨r, hr, .refl r⟩
  | @move l l' l'' notes more hStep hRest ih =>
    obtain ⟨place, q, m, hq, hMoves, hCalls, -, rfl, -⟩ := hl.step?_eq_some hStep
    rw [eventsOf_append]
    by_cases hPlace : place = call
    · subst hPlace
      obtain rfl : r = q := Option.some.inj (hr.symm.trans hq)
      have hMoved : l'.calls[place]? = some (r.step m).1 := by
        rw [hCalls]
        exact List.getElem?_set_self (List.getElem?_eq_some_iff.mp hr).1
      obtain ⟨q, hEnd, hRuns⟩ := ih (hl.step hStep) hMoved
      exact ⟨q, hEnd, by rw [eventsOf_note_self]; exact .move m hMoves hRuns⟩
    · have hKept : l'.calls[call]? = some r := by
        rw [hCalls, List.getElem?_set_ne hPlace]
        exact hr
      obtain ⟨q, hEnd, hRuns⟩ := ih (hl.step hStep) hKept
      exact ⟨q, hEnd, by rw [eventsOf_note_of_ne hPlace]; exact hRuns⟩

theorem Moves.call_lt {l l' : Loop α} {notes : List Note} (h : Moves l notes l') (hl : l.InStep) :
    ∀ n ∈ notes, n.call < l.calls.length := by
  induction h with
  | refl l => simp
  | @move l l' l'' notes more hStep hRest ih =>
    obtain ⟨place, r, m, hr, -, hCalls, -, rfl, -⟩ := hl.step?_eq_some hStep
    intro n hn
    rcases List.mem_append.mp hn with hn | hn
    · rw [call_of_mem_note hn]
      exact (List.getElem?_eq_some_iff.mp hr).1
    · have hLess := ih (hl.step hStep) n hn
      rwa [hCalls, List.length_set] at hLess

end Enroll.Loop
