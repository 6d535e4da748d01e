import Enroll.Text.Units

/-!
# Units and code points

A text in which every surrogate has its partner is the same as a list of code points that are no
surrogates: `codePoints` and `ofPoints` undo each other. What any text stands for is such a list.
-/

namespace Enroll.Text

/-- No surrogate is without its partner. -/
inductive Paired : Text → Prop where
  | nil : Paired []
  | unit {u : UInt16} {t : Text} (hUnit : isSurrogate u = false) (hRest : Paired t) :
    Paired (u :: t)
  | pair {u v : UInt16} {t : Text} (hLead : isLead u) (hTrail : isTrail v) (hRest : Paired t) :
    Paired (u :: v :: t)

def IsScalar (n : Nat) : Prop := n < 0xD800 ∨ 0xE000 ≤ n ∧ n < 0x110000

instance (n : Nat) : Decidable (IsScalar n) := by
  unfold IsScalar
  infer_instance

def ofPoints (points : List Nat) : Text := points.flatMap ofCodePoint

theorem Paired.append {t u : Text} (ht : Paired t) (hu : Paired u) : Paired (t ++ u) := by
  induction ht with
  | nil => exact hu
  | unit hUnit _ ih => exact .unit hUnit ih
  | pair hLead hTrail _ ih => exact .pair hLead hTrail ih

/-! ## Surrogates by number -/

theorem isLead_iff {u : UInt16} : isLead u ↔ 0xD800 ≤ u.toNat ∧ u.toNat ≤ 0xDBFF := by
  simp [isLead, UInt16.le_iff_toNat_le]

theorem isTrail_iff {u : UInt16} : isTrail u ↔ 0xDC00 ≤ u.toNat ∧ u.toNat ≤ 0xDFFF := by
  simp [isTrail, UInt16.le_iff_toNat_le]

theorem isSurrogate_eq_false_iff {u : UInt16} :
    isSurrogate u = false ↔ u.toNat < 0xD800 ∨ 0xDFFF < u.toNat := by
  rw [isSurrogate, Bool.or_eq_false_iff, ← Bool.not_eq_true, ← Bool.not_eq_true, isLead_iff,
    isTrail_iff]
  omega

theorem isLead_eq_false_of_unit {u : UInt16} (h : isSurrogate u = false) : isLead u = false := by
  simp_all [isSurrogate]

/-! ## One code point -/

theorem ofCodePoint_of_unit {u : UInt16} : ofCodePoint u.toNat = [u] := by
  have hLess := u.toNat_lt
  rw [ofCodePoint, if_pos (by omega)]
  simp

theorem ofCodePoint_pair {u v : UInt16} (hLead : isLead u) (hTrail : isTrail v) :
    ofCodePoint (pair u v) = [u, v] := by
  rw [isLead_iff] at hLead
  rw [isTrail_iff] at hTrail
  have hPair : pair u v = 0x10000 + (u.toNat - 0xD800) * 0x400 + (v.toNat - 0xDC00) := rfl
  have hFirst : 0xD800 + (pair u v - 0x10000) / 0x400 = u.toNat := by omega
  have hSecond : 0xDC00 + (pair u v - 0x10000) % 0x400 = v.toNat := by omega
  rw [ofCodePoint, if_neg (by omega), hFirst, hSecond]
  simp

theorem isScalar_pair {u v : UInt16} (hLead : isLead u) (hTrail : isTrail v) :
    IsScalar (pair u v) := by
  rw [isLead_iff] at hLead
  rw [isTrail_iff] at hTrail
  unfold IsScalar pair
  omega

theorem lone_of_unit {u : UInt16} (h : isSurrogate u = false) : lone u = u.toNat := by
  simp [lone, h]

theorem isScalar_lone (u : UInt16) : IsScalar (lone u) := by
  cases hUnit : isSurrogate u with
  | true =>
    rw [lone, if_pos hUnit]
    decide
  | false =>
    have hLess := u.toNat_lt
    rw [lone_of_unit hUnit]
    rw [isSurrogate_eq_false_iff] at hUnit
    unfold IsScalar
    omega

/-- The units of a code point: itself where it is small, a pair of surrogates where it is not. -/
theorem ofCodePoint_cases {n : Nat} (h : IsScalar n) :
    (∃ u : UInt16, ofCodePoint n = [u] ∧ isSurrogate u = false ∧ u.toNat = n) ∨
      ∃ u v, ofCodePoint n = [u, v] ∧ isLead u ∧ isTrail v ∧ pair u v = n := by
  unfold IsScalar at h
  by_cases hSmall : n < 0x10000
  · refine .inl ⟨n.toUInt16, if_pos hSmall, ?_, ?_⟩
    · rw [isSurrogate_eq_false_iff, Nat.toUInt16_eq, UInt16.toNat_ofNat']
      omega
    · rw [Nat.toUInt16_eq, UInt16.toNat_ofNat']
      omega
  · refine .inr ⟨_, _, if_neg hSmall, ?_, ?_, ?_⟩
    · rw [isLead_iff, Nat.toUInt16_eq, UInt16.toNat_ofNat']
      omega
    · rw [isTrail_iff, Nat.toUInt16_eq, UInt16.toNat_ofNat']
      omega
    · unfold pair
      rw [Nat.toUInt16_eq, Nat.toUInt16_eq, UInt16.toNat_ofNat', UInt16.toNat_ofNat']
      omega

/-! ## The code points of a text -/

theorem codePointsOnto_eq : ∀ (out : List Nat) (t : Text),
    codePointsOnto out t = out.reverse ++ codePoints t
  | out, [] => by simp [codePoints, codePointsOnto]
  | out, [u] => by simp [codePoints, codePointsOnto]
  | out, u :: v :: rest => by
    rw [codePoints, codePointsOnto, codePointsOnto]
    split
    · rw [codePointsOnto_eq (pair u v :: out), codePointsOnto_eq [pair u v]]
      simp
    · rw [codePointsOnto_eq (lone u :: out), codePointsOnto_eq [lone u]]
      simp

@[simp] theorem codePoints_nil : codePoints [] = [] := rfl

theorem codePoints_pair {u v : UInt16} (hLead : isLead u) (hTrail : isTrail v) (rest : Text) :
    codePoints (u :: v :: rest) = pair u v :: codePoints rest := by
  rw [codePoints, codePointsOnto, if_pos (by simp [hLead, hTrail]), codePointsOnto_eq]
  rfl

/-- A surrogate that is no lead, or that has no trail behind it, stands for itself alone. -/
theorem codePoints_lone {u : UInt16} {rest : Text}
    (h : ∀ v ∈ rest.head?, (isLead u && isTrail v) = false) :
    codePoints (u :: rest) = lone u :: codePoints rest := by
  cases rest with
  | nil => rfl
  | cons v rest =>
    have hLone : (isLead u && isTrail v) = false := h v rfl
    rw [codePoints, codePointsOnto, hLone, if_neg Bool.false_ne_true, codePointsOnto_eq]
    rfl

theorem codePoints_unit {u : UInt16} (hUnit : isSurrogate u = false) (rest : Text) :
    codePoints (u :: rest) = u.toNat :: codePoints rest := by
  rw [codePoints_lone (by simp [isLead_eq_false_of_unit hUnit]), lone_of_unit hUnit]

theorem isScalar_codePoints : ∀ (t : Text), ∀ n ∈ codePoints t, IsScalar n
  | [], n, hn => absurd hn List.not_mem_nil
  | [u], n, hn => by
    obtain rfl := List.mem_singleton.mp hn
    exact isScalar_lone u
  | u :: v :: rest, n, hn => by
    by_cases hPair : isLead u && isTrail v
    · obtain ⟨hLead, hTrail⟩ := Bool.and_eq_true_iff.mp hPair
      rw [codePoints_pair hLead hTrail] at hn
      rcases List.mem_cons.mp hn with hEq | hn
      · exact hEq ▸ isScalar_pair hLead hTrail
      · exact isScalar_codePoints rest n hn
    · rw [codePoints_lone (by simpa using hPair)] at hn
      rcases List.mem_cons.mp hn with rfl | hn
      · exact isScalar_lone u
      · exact isScalar_codePoints (v :: rest) n hn

theorem ofPoints_codePoints {t : Text} (h : Paired t) : ofPoints (codePoints t) = t := by
  induction h with
  | nil => rfl
  | unit hUnit hRest ih =>
    rw [codePoints_unit hUnit, ofPoints, List.flatMap_cons, ofCodePoint_of_unit]
    exact congrArg _ ih
  | pair hLead hTrail hRest ih =>
    rw [codePoints_pair hLead hTrail, ofPoints, List.flatMap_cons, ofCodePoint_pair hLead hTrail]
    exact congrArg _ ih

theorem codePoints_ofPoints {points : List Nat} (h : ∀ n ∈ points, IsScalar n) :
    codePoints (ofPoints points) = points := by
  induction points with
  | nil => rfl
  | cons n rest ih =>
    have hRest := ih fun m hm => h m (List.mem_cons_of_mem _ hm)
    rw [ofPoints, List.flatMap_cons]
    rcases ofCodePoint_cases (h n List.mem_cons_self) with
      ⟨u, hUnits, hUnit, rfl⟩ | ⟨u, v, hUnits, hLead, hTrail, rfl⟩
    · rw [hUnits, List.singleton_append, codePoints_unit hUnit, ← ofPoints, hRest]
    · rw [hUnits, List.cons_append, List.singleton_append, codePoints_pair hLead hTrail, ← ofPoints,
        hRest]

end Enroll.Text
