import Enroll.Proofs.Exchange.Course
import Enroll.Proofs.Exchange.Invariant

/-!
# The agenda of an exchange

The alarms that are set, in the order in which they run out. `earliest?` takes the first of the
agenda and leaves the rest of it. The timer of the exchange is set before all others, so it comes
first among the alarms of its time.
-/

namespace Enroll.Progress

variable {β : Type}

def NotAfter (a b : Alarm) : Prop := a.due ≤ b.due

instance : DecidableRel NotAfter := fun a b => inferInstanceAs (Decidable (a.due ≤ b.due))

def agenda (alarms : List Alarm) : List Alarm := alarms.mergeSort fun a b => NotAfter a b

@[simp] theorem agenda_nil : agenda [] = [] := List.mergeSort_nil

@[simp] theorem agenda_singleton (a : Alarm) : agenda [a] = [a] := List.mergeSort_singleton a

theorem perm_agenda (alarms : List Alarm) : (agenda alarms).Perm alarms :=
  List.mergeSort_perm alarms _

theorem notAfter_trans (a b c : Alarm) (hab : decide (NotAfter a b)) (hbc : decide (NotAfter b c)) :
    decide (NotAfter a c) :=
  decide_eq_true (Nat.le_trans (of_decide_eq_true hab) (of_decide_eq_true hbc))

theorem notAfter_total (a b : Alarm) : decide (NotAfter a b) || decide (NotAfter b a) := by
  rw [Bool.or_eq_true, decide_eq_true_iff, decide_eq_true_iff]
  exact Nat.le_total a.due b.due

theorem pairwise_agenda (alarms : List Alarm) : (agenda alarms).Pairwise NotAfter :=
  (List.pairwise_mergeSort notAfter_trans notAfter_total alarms).imp of_decide_eq_true

theorem agenda_cons (a : Alarm) (alarms : List Alarm) :
    agenda (a :: alarms) =
      (agenda alarms).takeWhile (fun b => !decide (NotAfter a b)) ++
        a :: (agenda alarms).dropWhile fun b => !decide (NotAfter a b) := by
  obtain ⟨sooner, later, hCons, hAll, hSooner⟩ :=
    List.mergeSort_cons notAfter_trans notAfter_total a alarms
  have hOrdered := pairwise_agenda (a :: alarms)
  rw [agenda, hCons] at hOrdered
  -- of alarms for one time the one that was set first stays in front, and `earliest?` takes it
  have hLater : ∀ b ∈ later, NotAfter a b :=
    (List.pairwise_cons.mp (List.pairwise_append.mp hOrdered).2.1).1
  rw [agenda, hCons, agenda, hAll, List.takeWhile_append_of_pos hSooner,
    List.dropWhile_append_of_pos hSooner]
  cases later with
  | nil => simp
  | cons b rest =>
    have hFirst : NotAfter a b := hLater b List.mem_cons_self
    simp [hFirst]

theorem agenda_of_earliest? {alarms others : List Alarm} {a : Alarm}
    (h : earliest? alarms = some (a, others)) : agenda alarms = a :: agenda others := by
  induction alarms generalizing a others with
  | nil => simp [earliest?] at h
  | cons b rest ih =>
    simp only [earliest?] at h
    rw [agenda_cons]
    split at h
    · rename_i hNone
      obtain ⟨rfl, rfl⟩ : b = a ∧ [] = others := by simpa using h
      simp [earliest?_eq_none_iff.mp hNone]
    · rename_i c found hFound
      rw [ih hFound]
      split at h
      · rename_i hDue
        obtain ⟨rfl, rfl⟩ : b = a ∧ rest = others := by simpa using h
        have hFirst : NotAfter b c := hDue
        simp [hFirst, ih hFound]
      · rename_i hDue
        obtain ⟨rfl, rfl⟩ : c = a ∧ b :: found = others := by simpa using h
        have hLater : ¬ NotAfter b c := hDue
        simp [hLater, agenda_cons]

theorem earliest?_of_agenda {alarms rest : List Alarm} {a : Alarm}
    (h : agenda alarms = a :: rest) :
    ∃ others, earliest? alarms = some (a, others) ∧ agenda others = rest := by
  cases hEarliest : earliest? alarms with
  | none =>
    simp [earliest?_eq_none_iff.mp hEarliest] at h
  | some found =>
    obtain ⟨b, others⟩ := found
    obtain ⟨rfl, rfl⟩ : b = a ∧ agenda others = rest := by
      simpa [agenda_of_earliest? hEarliest] using h
    exact ⟨others, rfl, rfl⟩

theorem agenda_eq_nil {alarms : List Alarm} (h : agenda alarms = []) : alarms = [] := by
  have hPerm := perm_agenda alarms
  rw [h] at hPerm
  exact hPerm.nil_eq.symm

/-! ## The timer among the other alarms -/

/-- What an exchange that waits has on its agenda: its timer, while that is set, and the others. -/
def Awaits (p : Progress β) (timer : Option Nat) (others : List Alarm) : Prop :=
  match timer with
  | none => p.aborted = true ∧ agenda p.alarms = others
  | some d => p.aborted = false ∧ ∃ turn alarms,
      p.alarms = ⟨d, turn, .deadline⟩ :: alarms ∧ agenda alarms = others

section Awaits

variable {p q : Progress β} {timer : Option Nat} {others : List Alarm}

theorem Awaits.aborted_eq (h : p.Awaits timer others) : p.aborted = timer.isNone := by
  cases timer with
  | none => exact h.1
  | some d => exact h.1

theorem Awaits.congr (h : p.Awaits timer others) (hAborted : q.aborted = p.aborted)
    (hAlarms : q.alarms = p.alarms) : q.Awaits timer others := by
  unfold Awaits at h ⊢
  rwa [hAborted, hAlarms]

theorem Awaits.add {added : List Alarm} (h : p.Awaits timer others)
    (hAborted : q.aborted = p.aborted) (hAlarms : q.alarms = p.alarms ++ added) :
    ∃ more, q.Awaits timer more ∧ more.Perm (others ++ added) ∧ more.Pairwise NotAfter ∧
      (others = [] → more = agenda added) := by
  have hJoin : ∀ set : List Alarm, agenda set = others →
      (agenda (set ++ added)).Perm (others ++ added) ∧
        (others = [] → agenda (set ++ added) = agenda added) := by
    intro set hSet
    refine ⟨(perm_agenda _).trans ((hSet ▸ (perm_agenda set).symm).append_right added), ?_⟩
    intro hNone
    rw [agenda_eq_nil (hSet.trans hNone), List.nil_append]
  cases timer with
  | none =>
    obtain ⟨hGone, hSet⟩ := h
    obtain ⟨hPerm, hNil⟩ := hJoin p.alarms hSet
    exact ⟨_, ⟨hAborted.trans hGone, congrArg agenda hAlarms⟩, hPerm, pairwise_agenda _, hNil⟩
  | some d =>
    obtain ⟨hRuns, turn, set, hTimer, hSet⟩ := h
    obtain ⟨hPerm, hNil⟩ := hJoin set hSet
    refine ⟨_, ⟨hAborted.trans hRuns, turn, set ++ added, ?_, rfl⟩, hPerm, pairwise_agenda _, hNil⟩
    rw [hAlarms, hTimer, List.cons_append]

theorem Awaits.next?_eq_none (h : p.Awaits none []) (hWaits : p.stage.atHand = false) :
    p.next? = none := by
  have hNone : p.alarms = [] := agenda_eq_nil h.2
  simp [next?, ready_eq, hWaits, hNone, earliest?]

theorem Awaits.rings {a : Alarm} {rest : List Alarm} (h : p.Awaits timer (a :: rest))
    (hWaits : p.stage.atHand = false) (hFirst : ∀ d ∈ timer, a.due < d) {m : Moment}
    (hNow : m.now = a.due) :
    p.MovesAt m ∧ ∃ left : List Alarm,
      p.step m = ring { p with alarms := left, since := m } m a.purpose ∧
        Awaits { p with alarms := left, since := m } timer rest := by
  have hAgenda : ∃ left, earliest? p.alarms = some (a, left) ∧
      Awaits { p with alarms := left, since := m } timer rest := by
    cases timer with
    | none =>
      obtain ⟨left, hEarliest, hLeft⟩ := earliest?_of_agenda h.2
      exact ⟨left, hEarliest, h.1, hLeft⟩
    | some d =>
      obtain ⟨hAborted, turn, alarms, hAlarms, hOthers⟩ := h
      obtain ⟨left, hEarliest, hLeft⟩ := earliest?_of_agenda hOthers
      have hLater : ¬ d ≤ a.due := Nat.not_le_of_lt (hFirst d rfl)
      refine ⟨_, ?_, hAborted, turn, left, rfl, hLeft⟩
      rw [hAlarms, earliest?, hEarliest]
      simp only [hLater, if_false]
  obtain ⟨left, hEarliest, hRest⟩ := hAgenda
  exact ⟨(movesAt_iff_of_waits hWaits).mpr ⟨a, left, hEarliest, hNow.symm⟩, left,
    step_of_some hWaits hEarliest, hRest⟩

/-- The timer rings before what runs out at its time or later. -/
theorem Awaits.timer_rings {d : Nat} (h : p.Awaits (some d) others)
    (hWaits : p.stage.atHand = false) (hFirst : ∀ a ∈ others, d ≤ a.due) {m : Moment}
    (hNow : m.now = d) :
    p.MovesAt m ∧ ∃ left : List Alarm,
      p.step m = ring { p with alarms := left, since := m } m .deadline ∧ agenda left = others := by
  obtain ⟨-, turn, alarms, hAlarms, hOthers⟩ := h
  have hEarliest : earliest? p.alarms = some (⟨d, turn, .deadline⟩, alarms) := by
    rw [hAlarms, earliest?]
    cases hRest : earliest? alarms with
    | none => rw [earliest?_eq_none_iff.mp hRest]
    | some found =>
      have hDue : d ≤ found.1.due := by
        apply hFirst
        rw [← hOthers, agenda_of_earliest? hRest]
        exact List.mem_cons_self
      simp only [hDue, if_true]
  exact ⟨(movesAt_iff_of_waits hWaits).mpr ⟨_, alarms, hEarliest, hNow.symm⟩, alarms,
    step_of_some hWaits hEarliest, hOthers⟩

end Awaits

end Enroll.Progress
