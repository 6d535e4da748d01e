import Enroll.Number.Basic
import Mathlib.Algebra.Order.Field.Power
import Mathlib.Algebra.Order.Field.Rat
import Mathlib.Algebra.Order.Round
import Mathlib.Tactic.FieldSimp
import Mathlib.Tactic.Linarith
import Mathlib.Tactic.Positivity
import Mathlib.Tactic.Ring

/-!
# Rounding

`Rounds` says what the nearest number to a rational is, by the distance alone: no number is nearer,
and of two that are as near the one with an even mantissa counts; from `overflow` on there is only
the infinity. There is one such number (`Rounds.unique`), and `ofDecimal` gives it.
-/

namespace Enroll.Number

def magnitude (m : Nat) (e : Int) : ℚ := m * 2 ^ e

/-- Half way from the greatest number to the next power of two. -/
def overflow : ℚ := (2 ^ 53 - 1 / 2) * 2 ^ (971 : Int)

inductive Rounds (negative : Bool) (q : ℚ) : Number → Prop where
  | infinite (hGreat : overflow ≤ q) : Rounds negative q (.infinity negative)
  | finite {m : Nat} {e : Int} (canonical : Canonical m e) (hSmall : q < overflow)
      (hNearest : ∀ m' e', Canonical m' e' → |q - magnitude m e| ≤ |q - magnitude m' e'|)
      (hEven : ∀ m' e', Canonical m' e' → |q - magnitude m e| = |q - magnitude m' e'| →
        (m' = m ∧ e' = e) ∨ m % 2 = 0) :
    Rounds negative q (.finite negative m e canonical)

/-! ## Canonical forms -/

theorem canonical_iff {m : Nat} {e : Int} :
    Canonical m e ↔ m < 2 ^ 53 ∧ -1074 ≤ e ∧ e ≤ 971 ∧ (e = -1074 ∨ 2 ^ 52 ≤ m) := Iff.rfl

theorem two_zpow_pos (e : Int) : (0 : ℚ) < 2 ^ e := zpow_pos two_pos e

/-- A number with a greater exponent lies on the grid of a smaller one. -/
theorem magnitude_on_grid (m : Nat) {e e' : Int} (h : e ≤ e') :
    magnitude m e' = magnitude (m * 2 ^ (e' - e).toNat) e := by
  have hExponent : e' = ((e' - e).toNat : Int) + e := by omega
  unfold magnitude
  rw [Nat.cast_mul, Nat.cast_pow, Nat.cast_ofNat, mul_assoc, ← zpow_natCast, ← zpow_add₀ two_ne_zero,
    ← hExponent]

/-- A number with a smaller exponent lies below all that have a full mantissa on the grid. -/
theorem magnitude_lt_of_exponent_lt {m : Nat} {e e' : Int} (hm : m < 2 ^ 53) (h : e' < e) :
    magnitude m e' < magnitude (2 ^ 52) e := by
  have hGrid : magnitude (2 ^ 52) e = magnitude (2 ^ 52 * 2 ^ (e - e').toNat) e' :=
    magnitude_on_grid _ h.le
  rw [hGrid]
  have hTwo : 2 ^ 1 ≤ 2 ^ (e - e').toNat := Nat.pow_le_pow_right two_pos (by omega)
  have hLess : m < 2 ^ 52 * 2 ^ (e - e').toNat := by omega
  exact mul_lt_mul_of_pos_right (by exact_mod_cast hLess) (two_zpow_pos e')

theorem magnitude_le_iff {m n : Nat} {e : Int} : magnitude m e ≤ magnitude n e ↔ m ≤ n := by
  unfold magnitude
  rw [mul_le_mul_iff_left₀ (two_zpow_pos e), Nat.cast_le]

theorem magnitude_lt_iff {m n : Nat} {e : Int} : magnitude m e < magnitude n e ↔ m < n := by
  rw [← not_le, magnitude_le_iff, not_le]

theorem exponent_le_of_magnitude_le {m m' : Nat} {e e' : Int} (h : Canonical m e)
    (h' : Canonical m' e') (hLe : magnitude m e ≤ magnitude m' e') : e ≤ e' := by
  by_contra hLess
  rw [not_le] at hLess
  have hFull : 2 ^ 52 ≤ m := by
    rw [canonical_iff] at h h'
    omega
  have hBelow := magnitude_lt_of_exponent_lt h'.1 hLess
  have hAbove : magnitude (2 ^ 52) e ≤ magnitude m e := magnitude_le_iff.mpr hFull
  linarith

theorem canonical_unique {m m' : Nat} {e e' : Int} (h : Canonical m e) (h' : Canonical m' e')
    (hEq : magnitude m e = magnitude m' e') : m = m' ∧ e = e' := by
  obtain rfl : e = e' := le_antisymm (exponent_le_of_magnitude_le h h' hEq.le)
    (exponent_le_of_magnitude_le h' h hEq.ge)
  exact ⟨le_antisymm (magnitude_le_iff.mp hEq.le) (magnitude_le_iff.mp hEq.ge), rfl⟩

/-- After a number with an even mantissa comes the one with the next mantissa. -/
theorem magnitude_succ_le {m m' : Nat} {e e' : Int} (h : Canonical m e) (h' : Canonical m' e')
    (hLess : magnitude m e < magnitude m' e') : magnitude (m + 1) e ≤ magnitude m' e' := by
  have hExponent := exponent_le_of_magnitude_le h h' hLess.le
  rw [magnitude_on_grid m' hExponent] at hLess ⊢
  rw [magnitude_lt_iff] at hLess
  exact magnitude_le_iff.mpr hLess

/-! ## The nearest number is one -/

/-- Of two numbers that are nearest the greater is odd if the smaller is even. -/
theorem odd_of_tie {q : ℚ} {m m' : Nat} {e e' : Int} (h : Canonical m e) (h' : Canonical m' e')
    (hNearest : ∀ n i, Canonical n i → |q - magnitude m e| ≤ |q - magnitude n i|)
    (hTie : |q - magnitude m e| = |q - magnitude m' e'|) (hLess : magnitude m e < magnitude m' e')
    (hEven : m % 2 = 0) : m' % 2 = 1 := by
  have hNext : Canonical (m + 1) e := by
    rw [canonical_iff] at h ⊢
    omega
  have hBetween := magnitude_succ_le h h' hLess
  have hStep : magnitude m e < magnitude (m + 1) e := magnitude_lt_iff.mpr (Nat.lt_succ_self m)
  -- q lies half way between the two, so anything strictly between them would be nearer
  have hMiddle : q = (magnitude m e + magnitude m' e') / 2 := by
    rcases abs_eq_abs.mp hTie with hSame | hOpposite
    · linarith
    · linarith
  have hFar := hNearest (m + 1) e hNext
  rw [hMiddle, abs_of_nonneg (by linarith)] at hFar
  have hEq : magnitude (m + 1) e = magnitude m' e' := by
    rcases le_abs.mp hFar with hAbove | hBelow
    · linarith
    · linarith
  obtain ⟨rfl, -⟩ := canonical_unique hNext h' hEq
  omega

theorem Rounds.unique {negative : Bool} {q : ℚ} {x y : Number} (hx : Rounds negative q x)
    (hy : Rounds negative q y) : x = y := by
  cases hx with
  | infinite hGreat =>
    cases hy with
    | infinite => rfl
    | finite _ hSmall => exact absurd hGreat (not_le.mpr hSmall)
  | @finite m e canonical hSmall hNearest hEven =>
    cases hy with
    | infinite hGreat => exact absurd hGreat (not_le.mpr hSmall)
    | @finite m' e' canonical' _ hNearest' hEven' =>
      have hTie := le_antisymm (hNearest m' e' canonical') (hNearest' m e canonical)
      have hSame : m = m' ∧ e = e' := by
        by_contra hOther
        have hm : m % 2 = 0 := (hEven m' e' canonical' hTie).resolve_left
          fun hEq => hOther ⟨hEq.1.symm, hEq.2.symm⟩
        have hm' : m' % 2 = 0 := (hEven' m e canonical hTie.symm).resolve_left hOther
        rcases lt_trichotomy (magnitude m e) (magnitude m' e') with hLess | hEq | hLess
        · have hOdd := odd_of_tie canonical canonical' hNearest hTie hLess hm
          omega
        · exact hOther (canonical_unique canonical canonical' hEq)
        · have hOdd := odd_of_tie canonical' canonical hNearest' hTie.symm hLess hm'
          omega
      obtain ⟨rfl, rfl⟩ := hSame
      rfl

/-! ## The nearest integer -/

structure IsNearest (p : ℚ) (m : Nat) : Prop where
  close : |p - m| ≤ 1 / 2
  even : |p - m| = 1 / 2 → m % 2 = 0

theorem IsNearest.far {p : ℚ} {m k : Nat} (h : IsNearest p m) (hOther : k ≠ m) :
    1 / 2 ≤ |p - k| := by
  have hApart : (1 : ℚ) ≤ |(m : ℚ) - k| := by
    have hInt : (1 : Int) ≤ |(m : Int) - k| := Int.one_le_abs (by omega)
    exact_mod_cast hInt
  have hTriangle : |(m : ℚ) - k| ≤ |(m : ℚ) - p| + |p - k| := abs_sub_le _ _ _
  have hClose := h.close
  rw [abs_sub_comm] at hClose
  linarith

theorem IsNearest.le {p : ℚ} {m : Nat} (h : IsNearest p m) (k : Nat) : |p - m| ≤ |p - k| := by
  by_cases hSame : k = m
  · rw [hSame]
  · exact h.close.trans (h.far hSame)

theorem IsNearest.eq_or_even {p : ℚ} {m k : Nat} (h : IsNearest p m) (hTie : |p - m| = |p - k|) :
    k = m ∨ m % 2 = 0 := by
  by_cases hSame : k = m
  · exact .inl hSame
  · exact .inr (h.even (le_antisymm h.close (hTie ▸ h.far hSame)))

theorem IsNearest.bounds {p : ℚ} {m : Nat} (h : IsNearest p m) :
    (m : ℚ) ≤ p + 1 / 2 ∧ p ≤ m + 1 / 2 := by
  have hClose := abs_le.mp h.close
  constructor <;> linarith

theorem IsNearest.le_of_lt {p : ℚ} {m k : Nat} (h : IsNearest p m) (hLess : p < k) : m ≤ k := by
  have hBound : (m : ℚ) < (k + 1 : Nat) := by
    push_cast
    linarith [h.bounds.1]
  exact Nat.lt_succ_iff.mp (Nat.cast_lt.mp hBound)

theorem IsNearest.ge_of_le {p : ℚ} {m k : Nat} (h : IsNearest p m) (hLe : k ≤ p) : k ≤ m := by
  have hBound : (k : ℚ) < (m + 1 : Nat) := by
    push_cast
    linarith [h.bounds.2]
  exact Nat.lt_succ_iff.mp (Nat.cast_lt.mp hBound)

/-- Half way below an even number rounds to that number. -/
theorem IsNearest.lt_half {p : ℚ} {m k : Nat} (h : IsNearest p m) (hLess : m < k)
    (hEven : k % 2 = 0) : p < k - 1 / 2 := by
  have hBelow : (m : ℚ) + 1 ≤ k := by exact_mod_cast hLess
  by_contra hNot
  have hTie : |p - m| = 1 / 2 := by
    rw [abs_of_nonneg (by linarith)]
    linarith [h.bounds.2]
  have hNext : (k : ℚ) = (m + 1 : Nat) := by
    push_cast
    linarith [h.bounds.2]
  have hm := h.even hTie
  have hk := Nat.cast_injective hNext
  omega

theorem isNearest_of_rest_lt (w : Nat) {rest : ℚ} (hRest : 0 ≤ rest) (hNear : rest < 1 / 2) :
    IsNearest (w + rest) w := by
  refine ⟨?_, fun hHalf => ?_⟩
  · rw [add_sub_cancel_left, abs_of_nonneg hRest]
    exact hNear.le
  · rw [add_sub_cancel_left, abs_of_nonneg hRest] at hHalf
    exact absurd hHalf hNear.ne

theorem isNearest_of_rest_gt (w : Nat) {rest : ℚ} (hNear : 1 / 2 < rest) (hBelow : rest < 1) :
    IsNearest (w + rest) (w + 1) := by
  have hGap : (w + rest) - ((w : ℚ) + 1) = -(1 - rest) := by ring
  refine ⟨?_, fun hHalf => ?_⟩
  · rw [Nat.cast_add, Nat.cast_one, hGap, abs_neg, abs_of_pos (by linarith)]
    linarith
  · rw [Nat.cast_add, Nat.cast_one, hGap, abs_neg, abs_of_pos (by linarith)] at hHalf
    linarith

/-- Of two whole numbers that are as near the even one counts. -/
theorem isNearest_of_half (w : Nat) : IsNearest (w + 1 / 2) (w + w % 2) := by
  rcases Nat.mod_two_eq_zero_or_one w with hEven | hOdd
  · rw [hEven, Nat.add_zero]
    refine ⟨?_, fun _ => hEven⟩
    rw [add_sub_cancel_left]
    norm_num
  · rw [hOdd]
    refine ⟨?_, fun _ => by omega⟩
    rw [Nat.cast_add, Nat.cast_one, add_sub_add_left_eq_sub]
    norm_num

theorem isNearest_roundQuotient (n : Nat) {d : Nat} (hd : 0 < d) :
    IsNearest (n / d) (roundQuotient n d) := by
  have hPos : (0 : ℚ) < d := by exact_mod_cast hd
  have hWhole : (n : ℚ) = d * (n / d : Nat) + (n % d : Nat) := by
    exact_mod_cast (Nat.div_add_mod n d).symm
  have hFloor : (n : ℚ) / d = (n / d : Nat) + (n % d : Nat) / d := by
    field_simp
    linarith
  unfold roundQuotient
  rw [hFloor]
  split
  · have hNear : ((n % d : Nat) : ℚ) / d < 1 / 2 := by
      rw [div_lt_div_iff₀ hPos two_pos]
      have hLess : (n % d : Nat) * 2 < 1 * d := by omega
      exact_mod_cast hLess
    exact isNearest_of_rest_lt _ (by positivity) hNear
  · split
    · have hNear : (1 : ℚ) / 2 < (n % d : Nat) / d := by
        rw [div_lt_div_iff₀ two_pos hPos]
        have hLess : 1 * d < (n % d : Nat) * 2 := by omega
        exact_mod_cast hLess
      have hBelow : ((n % d : Nat) : ℚ) / d < 1 := by
        rw [div_lt_one hPos]
        exact_mod_cast Nat.mod_lt n hd
      exact isNearest_of_rest_gt _ hNear hBelow
    · have hHalf : ((n % d : Nat) : ℚ) / d = 1 / 2 := by
        rw [div_eq_div_iff hPos.ne' two_ne_zero]
        have hEq : (n % d : Nat) * 2 = 1 * d := by omega
        exact_mod_cast hEq
      rw [hHalf]
      exact isNearest_of_half _

/-! ## On the grid of an exponent -/

theorem isNearest_on_grid {p : ℚ} {m : Nat} {e : Int} (h : IsNearest p m)
    (hFull : e = -1074 ∨ 2 ^ 52 ≤ p) {m' : Nat} {e' : Int} (h' : Canonical m' e') :
    |p * 2 ^ e - magnitude m e| ≤ |p * 2 ^ e - magnitude m' e'| ∧
      (|p * 2 ^ e - magnitude m e| = |p * 2 ^ e - magnitude m' e'| →
        magnitude m' e' = magnitude m e ∨ m % 2 = 0) := by
  have hPos := two_zpow_pos e
  have hScale : ∀ k : Nat, |p * 2 ^ e - magnitude k e| = |p - k| * 2 ^ e := by
    intro k
    rw [magnitude, ← sub_mul, abs_mul, abs_of_pos hPos]
  rcases le_or_gt e e' with hOn | hBelow
  · rw [magnitude_on_grid m' hOn, hScale, hScale, mul_le_mul_iff_left₀ hPos,
      mul_left_inj' hPos.ne']
    refine ⟨h.le _, fun hTie => ?_⟩
    rcases h.eq_or_even hTie with hSame | hEven
    · exact .inl (by rw [hSame])
    · exact .inr hEven
  · -- a finer number lies below the whole binade, so its lowest number is nearer
    have hLow : (2 : ℚ) ^ 52 ≤ p := by
      rw [canonical_iff] at h'
      exact hFull.resolve_left (by omega)
    have hFiner := magnitude_lt_of_exponent_lt h'.1 hBelow
    have hLowest : magnitude (2 ^ 52) e ≤ p * 2 ^ e := by
      unfold magnitude
      push_cast
      exact mul_le_mul_of_nonneg_right hLow hPos.le
    have hNearer : |p * 2 ^ e - magnitude m e| ≤ |p * 2 ^ e - magnitude (2 ^ 52) e| := by
      rw [hScale, hScale]
      exact mul_le_mul_of_nonneg_right (h.le _) hPos.le
    rw [abs_of_nonneg (a := p * 2 ^ e - magnitude (2 ^ 52) e) (by linarith)] at hNearer
    rw [abs_of_nonneg (a := p * 2 ^ e - magnitude m' e') (by linarith)]
    refine ⟨by linarith, fun hTie => ?_⟩
    linarith

theorem ofBinary_of_canonical {m : Nat} {e : Int} (negative : Bool) (h : Canonical m e) :
    ofBinary negative m e = .finite negative m e h := dif_pos h

theorem ofBinary_of_great {m : Nat} {e : Int} (negative : Bool) (h : 971 < e) :
    ofBinary negative m e = .infinity negative :=
  dif_neg fun hCanonical => absurd hCanonical.2.2.1 (not_le.mpr h)

theorem overflow_le_of_exponent {p : ℚ} {e : Int} (hExponent : 971 ≤ e) (h : 2 ^ 53 - 1 / 2 ≤ p) :
    overflow ≤ p * 2 ^ e := by
  unfold overflow
  exact mul_le_mul h (zpow_le_zpow_right₀ one_le_two hExponent) (two_zpow_pos _).le (by linarith)

theorem lt_overflow_of_exponent {p : ℚ} {e : Int} (hExponent : e ≤ 971) (h : p < 2 ^ 53 - 1 / 2) :
    p * 2 ^ e < overflow := by
  have hGrid : (2 ^ 53 - 1 / 2 : ℚ) * 2 ^ e ≤ overflow := by
    unfold overflow
    exact mul_le_mul_of_nonneg_left (zpow_le_zpow_right₀ one_le_two hExponent) (by norm_num)
  exact (mul_lt_mul_of_pos_right h (two_zpow_pos e)).trans_le hGrid

theorem half_exponent (p : ℚ) (e : Int) : p * 2 ^ e = p / 2 * 2 ^ (e + 1) := by
  rw [zpow_add_one₀ two_ne_zero]
  ring

theorem rounds_finite {p : ℚ} {m : Nat} {e : Int} (negative : Bool) (h : IsNearest p m)
    (hFull : e = -1074 ∨ 2 ^ 52 ≤ p) (hSmall : p * 2 ^ e < overflow) {m' : Nat} {e' : Int}
    (hCanonical : Canonical m' e') (hSame : magnitude m' e' = magnitude m e)
    (hEven : m % 2 = 0 → m' % 2 = 0) :
    Rounds negative (p * 2 ^ e) (.finite negative m' e' hCanonical) := by
  refine .finite hCanonical hSmall (fun n i hOther => ?_) (fun n i hOther hTie => ?_)
  · rw [hSame]
    exact (isNearest_on_grid h hFull hOther).1
  · rw [hSame] at hTie
    rcases (isNearest_on_grid h hFull hOther).2 hTie with hEq | hm
    · exact .inl (canonical_unique hOther hCanonical (hEq.trans hSame.symm))
    · exact .inr (hEven hm)

theorem rounds_ofBinary {p : ℚ} {m : Nat} {e : Int} (negative : Bool) (h : IsNearest p m)
    (hExponent : -1074 ≤ e) (hFull : e = -1074 ∨ 2 ^ 52 ≤ p) (hLess : p < 2 ^ 53) :
    Rounds negative (p * 2 ^ e)
      (if m = 2 ^ 53 then ofBinary negative (2 ^ 52) (e + 1) else ofBinary negative m e) := by
  have hMost : m ≤ 2 ^ 53 := h.le_of_lt (by exact_mod_cast hLess)
  split
  · -- the mantissa has spilled over into the next binade
    rename_i hSpilled
    have hHigh : (2 ^ 53 - 1 / 2 : ℚ) ≤ p := by
      have hBound := h.bounds.1
      rw [hSpilled] at hBound
      push_cast at hBound
      linarith
    rcases lt_or_ge e 971 with hFits | hGreat
    · have hCanonical : Canonical (2 ^ 52) (e + 1) := by
        rw [canonical_iff]
        omega
      rw [ofBinary_of_canonical negative hCanonical]
      refine rounds_finite negative h hFull ?_ hCanonical ?_ fun _ => by norm_num
      · rw [half_exponent]
        exact lt_overflow_of_exponent (by omega) (by linarith)
      · rw [hSpilled, magnitude, magnitude, half_exponent ((2 ^ 53 : Nat) : ℚ)]
        norm_num
    · rw [ofBinary_of_great negative (by omega)]
      exact .infinite (overflow_le_of_exponent hGreat hHigh)
  · rename_i hKept
    rcases le_or_gt e 971 with hFits | hGreat
    · have hCanonical : Canonical m e := by
        rw [canonical_iff]
        refine ⟨by omega, hExponent, hFits, hFull.imp_right fun hHigh => ?_⟩
        exact h.ge_of_le (by exact_mod_cast hHigh)
      rw [ofBinary_of_canonical negative hCanonical]
      refine rounds_finite negative h hFull ?_ hCanonical rfl id
      exact lt_overflow_of_exponent hFits (by exact_mod_cast h.lt_half (by omega) rfl)
    · rw [ofBinary_of_great negative hGreat]
      have hHigh := hFull.resolve_left (by omega)
      refine .infinite ?_
      have hDouble : p * 2 ^ e = p * 2 * 2 ^ (e - 1) := by
        rw [half_exponent (p * 2), sub_add_cancel]
        ring
      rw [hDouble]
      exact overflow_le_of_exponent (by omega) (by linarith)

theorem rounds_zero {q : ℚ} (negative : Bool) (hNonneg : 0 ≤ q) (hSmall : q ≤ 2 ^ (-1075 : Int)) :
    Rounds negative q (zero negative) := by
  have hPos := two_zpow_pos (-1074)
  have hHalf : q ≤ 1 / 2 * 2 ^ (-1074 : Int) := by
    have hStep := half_exponent 1 (-1075)
    rw [one_mul] at hStep
    exact hStep ▸ hSmall
  have hNearest : IsNearest (q / 2 ^ (-1074 : Int)) 0 := by
    refine ⟨?_, fun _ => rfl⟩
    rw [Nat.cast_zero, sub_zero, abs_of_nonneg (div_nonneg hNonneg hPos.le), div_le_iff₀ hPos]
    exact hHalf
  have hLess : q / 2 ^ (-1074 : Int) < 2 ^ 53 - 1 / 2 := by
    rw [div_lt_iff₀ hPos]
    exact hHalf.trans_lt (mul_lt_mul_of_pos_right (by norm_num) hPos)
  have hRounds := rounds_finite negative hNearest (.inl rfl)
    (lt_overflow_of_exponent (by omega) hLess) (by decide) rfl id
  rwa [div_mul_cancel₀ q hPos.ne'] at hRounds

end Enroll.Number
