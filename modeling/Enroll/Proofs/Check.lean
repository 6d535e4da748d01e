import Enroll.Check
import Enroll.Proofs.Number.Place

/-!
# What checks find

A check goes through its rules and tells all that are broken, in their order; `Tells` says so, and
leaves one list of them. A number is in a range if none of its rules is broken, and then it is the
number of a natural.
-/

namespace Enroll

/-- All of some rules that are broken, in the order of the rules. -/
structure Tells {α : Type} (rules : List α) (Broken : α → Prop) (told : List α) : Prop where
  ordered : told.Sublist rules
  mem_iff : ∀ a, a ∈ told ↔ Broken a

namespace Tells

variable {α β : Type} {rules told told' : List α} {Broken : α → Prop}

theorem eq_filter [DecidableEq α] (hOrdered : told.Sublist rules) (hNodup : rules.Nodup) :
    told = rules.filter fun a => a ∈ told := by
  induction hOrdered with
  | slnil => rfl
  | cons a hRest ih =>
    obtain ⟨hOther, hNodup⟩ := List.nodup_cons.mp hNodup
    have hNot := mt (fun h => hRest.subset h) hOther
    rw [List.filter_cons_of_neg (by simpa using hNot)]
    exact ih hNodup
  | @cons_cons l₁ l₂ a hRest ih =>
    obtain ⟨hOther, hNodup⟩ := List.nodup_cons.mp hNodup
    rw [List.filter_cons_of_pos (by simp)]
    congr 1
    refine (ih hNodup).trans (List.filter_congr fun b hb => ?_)
    have hNe : b ≠ a := fun hEq => hOther (hEq ▸ hb)
    simp [hNe]

theorem unique [DecidableEq α] (hNodup : rules.Nodup) (h : Tells rules Broken told)
    (h' : Tells rules Broken told') : told = told' := by
  rw [eq_filter h.ordered hNodup, eq_filter h'.ordered hNodup]
  exact List.filter_congr fun a _ =>
    decide_eq_decide.mpr ((h.mem_iff a).trans (h'.mem_iff a).symm)

theorem map (h : Tells rules Broken told) {f : α → β} {Broken' : β → Prop}
    (hBroken : ∀ b, Broken' b ↔ ∃ a, Broken a ∧ f a = b) :
    Tells (rules.map f) Broken' (told.map f) := by
  constructor
  · exact h.ordered.map f
  · intro b
    rw [List.mem_map, hBroken]
    exact exists_congr fun a => and_congr_left fun _ => h.mem_iff a

theorem append {rules' : List α} {Broken' : α → Prop} (h : Tells rules Broken told)
    (h' : Tells rules' Broken' told') :
    Tells (rules ++ rules') (fun a => Broken a ∨ Broken' a) (told ++ told') := by
  constructor
  · exact h.ordered.append h'.ordered
  · intro a
    rw [List.mem_append, h.mem_iff, h'.mem_iff]

theorem single {a : α} {found broken : Prop} [Decidable found] (h : found ↔ broken) :
    Tells [a] (fun b => broken ∧ b = a) (if found then [a] else []) := by
  split
  · rename_i hFound
    exact ⟨List.Sublist.refl _, fun b => by simp [h.mp hFound]⟩
  · rename_i hNot
    exact ⟨List.nil_sublist _, fun b => by simp [mt h.mpr hNot]⟩

/-- One rule for each of some things, told in their order. -/
theorem each (rule : β → α) (Fails : β → Prop) [DecidablePred Fails] (things : List β) :
    Tells (things.map rule) (fun a => ∃ b ∈ things, Fails b ∧ a = rule b)
      (things.flatMap fun b => if Fails b then [rule b] else []) := by
  induction things with
  | nil => exact ⟨List.Sublist.refl _, by simp⟩
  | cons b things ih =>
    have hFirst : Tells [rule b] (fun a => Fails b ∧ a = rule b)
        (if Fails b then [rule b] else []) := single Iff.rfl
    constructor
    · exact hFirst.ordered.append ih.ordered
    · intro a
      rw [List.flatMap_cons, List.mem_append, hFirst.mem_iff, ih.mem_iff]
      simp

theorem congr {Broken' : α → Prop} (h : Tells rules Broken told)
    (hBroken : ∀ a, Broken a ↔ Broken' a) : Tells rules Broken' told :=
  ⟨h.ordered, fun a => (h.mem_iff a).trans (hBroken a)⟩

theorem nil_iff (h : Tells rules Broken told) : told = [] ↔ ∀ a, ¬ Broken a := by
  rw [List.eq_nil_iff_forall_not_mem]
  exact forall_congr' fun a => not_congr (h.mem_iff a)

end Tells

/-! ## Ranges -/

namespace Lower

def fault : Lower → Fault
  | .least n => .below n
  | .over n => .notAbove n

/-- The least integer in range. -/
def first : Lower → Nat
  | .least n => n
  | .over n => n + 1

/-- Below the least number of a range, or not above the one under it. -/
def Missed : Lower → Place → Prop
  | .least n, p => p < .at n
  | .over n, p => p ≤ .at n

theorem not_missed_iff {lower : Lower} {n : Int} : ¬ lower.Missed (.at n) ↔ lower.first ≤ n := by
  rcases lower with k | k
  · rw [Missed, Place.at_lt_iff, not_lt, first]
    exact_mod_cast Iff.rfl
  · rw [Missed, not_le, Place.at_lt_iff, first, Nat.cast_add, Nat.cast_one, Int.add_one_le_iff]
    exact_mod_cast Iff.rfl

end Lower

namespace Range

/-- The faults that a number can have in a range, in the order in which they are told. -/
def rules (r : Range) : List Fault :=
  [.kind "number" "nan", .fraction, r.lower.fault, .above r.greatest]

/-- What is wrong with a number in a range. What is not a number has no other fault; an infinity is
not whole, and beyond one end of every range. -/
inductive Violates (r : Range) (x : Number) : Fault → Prop where
  | notNumber (hNone : x.place? = none) : Violates r x (.kind "number" "nan")
  | fraction {p : Place} (hPlace : x.place? = some p) (hPart : ∀ n : Int, p ≠ .at n) :
    Violates r x .fraction
  | lower {p : Place} (hPlace : x.place? = some p) (hMissed : r.lower.Missed p) :
    Violates r x r.lower.fault
  | above {p : Place} (hPlace : x.place? = some p) (hAbove : .at r.greatest < p) :
    Violates r x (.above r.greatest)

section Placed

variable {x : Number} {p : Place}

theorem isNone_toInt?_iff (hPlace : x.place? = some p) :
    x.toInt?.isNone ↔ ∀ n : Int, p ≠ .at n := by
  simp [Option.isNone_iff_eq_none, Option.eq_none_iff_forall_ne_some, Number.toInt?_eq_some_iff,
    hPlace]

theorem gtInt_iff_of_place (hPlace : x.place? = some p) (b : Int) : x.gtInt b ↔ .at b < p := by
  simp [Number.gtInt_iff, hPlace]

theorem tells_lowerFaults (hPlace : x.place? = some p) (lower : Lower) :
    Tells [lower.fault] (fun f => lower.Missed p ∧ f = lower.fault) (lowerFaults x lower) := by
  rcases lower with n | n
  · exact .single (by simp [Lower.Missed, Number.ltInt_iff, hPlace])
  · have hMissed : ¬ x.gtInt n ↔ p ≤ .at ((n : Int) : ℚ) :=
      (not_congr (gtInt_iff_of_place hPlace n)).trans not_lt
    have hTells := Tells.single (a := Fault.notAbove n) hMissed
    rw [ite_not] at hTells
    exact hTells

theorem violates_iff_of_place (r : Range) (hPlace : x.place? = some p) (f : Fault) :
    r.Violates x f ↔ ((∀ n : Int, p ≠ .at n) ∧ f = .fraction ∨ r.lower.Missed p ∧ f = r.lower.fault) ∨
      .at r.greatest < p ∧ f = .above r.greatest := by
  constructor
  · rintro (hNone | ⟨hPlace', hPart⟩ | ⟨hPlace', hMissed⟩ | ⟨hPlace', hAbove⟩)
    · exact absurd (hPlace.symm.trans hNone) nofun
    all_goals obtain rfl := Option.some.inj (hPlace.symm.trans hPlace')
    · exact .inl (.inl ⟨hPart, rfl⟩)
    · exact .inl (.inr ⟨hMissed, rfl⟩)
    · exact .inr ⟨hAbove, rfl⟩
  · rintro ((⟨hPart, rfl⟩ | ⟨hMissed, rfl⟩) | ⟨hAbove, rfl⟩)
    · exact .fraction hPlace hPart
    · exact .lower hPlace hMissed
    · exact .above hPlace hAbove

end Placed

theorem tells_faults (r : Range) (x : Number) : Tells r.rules (r.Violates x) (r.faults x) := by
  unfold faults
  cases hPlace : x.place? with
  | none =>
    rw [if_pos (Number.isNan_iff.mpr hPlace)]
    refine ⟨List.Sublist.cons_cons _ (List.nil_sublist _), fun f => ?_⟩
    rw [List.mem_singleton]
    constructor
    · rintro rfl
      exact .notNumber hPlace
    · rintro (hNone | ⟨hPlace', -⟩ | ⟨hPlace', -⟩ | ⟨hPlace', -⟩)
      · rfl
      all_goals exact absurd (hPlace.symm.trans hPlace') nofun
  | some p =>
    rw [if_neg fun h => absurd (hPlace.symm.trans (Number.isNan_iff.mp h)) nofun]
    have hTells := ((Tells.single (a := .fraction) (isNone_toInt?_iff hPlace)).append
      (tells_lowerFaults hPlace r.lower)).append
      (.single (a := .above r.greatest) (gtInt_iff_of_place hPlace r.greatest))
    have hRules := hTells.congr fun f => (r.violates_iff_of_place hPlace f).symm
    exact ⟨hRules.ordered.cons _, hRules.mem_iff⟩

/-- A range holds numbers of naturals, as far as it has a least one and all of them can be held. -/
theorem faults_eq_nil_iff {r : Range} (hFirst : 0 < r.lower.first) (hFits : r.greatest < 2 ^ 53)
    {x : Number} :
    r.faults x = [] ↔ ∃ n : Nat, r.lower.first ≤ n ∧ n ≤ r.greatest ∧ x = .ofNat n := by
  rw [(r.tells_faults x).nil_iff]
  constructor
  · intro hNone
    cases hPlace : x.place? with
    | none => exact absurd (.notNumber hPlace) (hNone _)
    | some p =>
      obtain ⟨n, rfl⟩ : ∃ n : Int, p = .at n := by
        by_contra hPart
        exact hNone _ (.fraction hPlace (not_exists.mp hPart))
      have hLow := Lower.not_missed_iff.mp fun hMissed => hNone _ (.lower hPlace hMissed)
      have hHigh : ¬ (r.greatest : Int) < n := by
        intro hAbove
        refine hNone _ (.above hPlace (Place.at_lt_iff.mpr ?_))
        exact_mod_cast hAbove
      obtain ⟨k, rfl⟩ := Int.eq_ofNat_of_zero_le (a := n) (by omega)
      exact ⟨k, by omega, by omega, Number.eq_ofNat (by omega) hPlace⟩
  · rintro ⟨n, hLow, hHigh, rfl⟩ f hViolates
    have hPlace := Number.place?_ofNat (n := n) (by omega) (by omega)
    rcases (r.violates_iff_of_place hPlace f).mp hViolates with
      (⟨hPart, -⟩ | ⟨hMissed, -⟩) | ⟨hAbove, -⟩
    · exact hPart n rfl
    · exact Lower.not_missed_iff.mpr (by omega) (show r.lower.Missed (.at ((n : Int) : ℚ)) from hMissed)
    · have hLess := Place.at_lt_iff.mp hAbove
      have hNat : r.greatest < n := by exact_mod_cast hLess
      omega

end Range

end Enroll
