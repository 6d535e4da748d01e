import Enroll.Number.Decimal
import Enroll.Proofs.Number.Rounding

/-!
# Decimals as numbers

A quotient and a decimal are read as the number nearest to them.
-/

namespace Enroll.Number

theorem scaled_pos {base den : Nat} (num : Nat) (e : Int) (hBase : 0 < base) (hDen : 0 < den) :
    0 < (scaled base num den e).2 := by
  unfold scaled
  split
  · exact Nat.mul_pos hDen (Nat.pow_pos hBase)
  · exact hDen

theorem scaled_value {base den : Nat} (num : Nat) (e : Int) (hBase : 0 < base) (hDen : 0 < den) :
    ((scaled base num den e).1 : ℚ) / (scaled base num den e).2 = num / den / (base : ℚ) ^ e := by
  have hb : (base : ℚ) ≠ 0 := by exact_mod_cast hBase.ne'
  have hd : (den : ℚ) ≠ 0 := by exact_mod_cast hDen.ne'
  unfold scaled
  split
  · rename_i hUp
    obtain ⟨k, rfl⟩ := Int.eq_ofNat_of_zero_le hUp
    rw [Nat.pow_eq, Int.toNat_natCast, zpow_natCast, Nat.cast_mul, Nat.cast_pow, div_div]
  · rename_i hDown
    obtain ⟨k, hk⟩ := Int.eq_ofNat_of_zero_le (a := -e) (by omega)
    obtain rfl : e = -k := by omega
    rw [Nat.pow_eq, neg_neg, Int.toNat_natCast, zpow_neg, zpow_natCast, Nat.cast_mul, Nat.cast_pow,
      div_inv_eq_mul, div_mul_eq_mul_div]

/-- The floor of a logarithm is found from the difference of those of numerator and denominator. -/
theorem floorFrom_spec {base num den : Nat} {i j : Int} (hBase : 0 < base) (hDen : 0 < den)
    (hNumLow : (base : ℚ) ^ i ≤ num) (hNumHigh : (num : ℚ) < base ^ (i + 1))
    (hDenLow : (base : ℚ) ^ j ≤ den) (hDenHigh : (den : ℚ) < base ^ (j + 1)) :
    (base : ℚ) ^ floorFrom base num den (i - j) ≤ num / den ∧
      (num : ℚ) / den < base ^ (floorFrom base num den (i - j) + 1) := by
  have hb : (0 : ℚ) < base := by exact_mod_cast hBase
  have hd : (0 : ℚ) < den := by exact_mod_cast hDen
  have hPos : (0 : ℚ) < base ^ (i - j) := zpow_pos hb _
  have hValue := scaled_value num (i - j) hBase hDen
  have hScaled : (0 : ℚ) < (scaled base num den (i - j)).2 := by
    exact_mod_cast scaled_pos num (i - j) hBase hDen
  have hLow : (base : ℚ) ^ (i - j - 1) ≤ num / den := by
    rw [le_div_iff₀ hd]
    calc (base : ℚ) ^ (i - j - 1) * den ≤ base ^ (i - j - 1) * base ^ (j + 1) :=
          mul_le_mul_of_nonneg_left hDenHigh.le (zpow_pos hb _).le
      _ = base ^ i := by rw [← zpow_add₀ hb.ne']; congr 1; omega
      _ ≤ num := hNumLow
  have hHigh : (num : ℚ) / den < base ^ (i - j + 1) := by
    rw [div_lt_iff₀ hd]
    calc (num : ℚ) < base ^ (i + 1) := hNumHigh
      _ = base ^ (i - j + 1) * base ^ j := by rw [← zpow_add₀ hb.ne']; congr 1; omega
      _ ≤ base ^ (i - j + 1) * den := mul_le_mul_of_nonneg_left hDenLow (zpow_pos hb _).le
  unfold floorFrom
  split
  · rename_i hLe
    have hOne : 1 ≤ (num : ℚ) / den / base ^ (i - j) := by
      rw [← hValue, one_le_div hScaled]
      exact_mod_cast hLe
    rw [le_div_iff₀ hPos, one_mul] at hOne
    exact ⟨hOne, hHigh⟩
  · rename_i hLess
    have hOne : (num : ℚ) / den / base ^ (i - j) < 1 := by
      rw [← hValue, div_lt_one hScaled]
      exact_mod_cast not_le.mp hLess
    rw [div_lt_iff₀ hPos, one_mul] at hOne
    rw [sub_add_cancel]
    exact ⟨hLow, hOne⟩

theorem log2_bounds {n : Nat} (h : 0 < n) :
    (2 : ℚ) ^ (n.log2 : Int) ≤ n ∧ (n : ℚ) < 2 ^ ((n.log2 : Int) + 1) := by
  constructor
  · exact_mod_cast Nat.log2_self_le h.ne'
  · exact_mod_cast Nat.lt_log2_self

theorem floorLog2_spec {num den : Nat} (hNum : 0 < num) (hDen : 0 < den) :
    (2 : ℚ) ^ floorLog2 num den ≤ num / den ∧ (num : ℚ) / den < 2 ^ (floorLog2 num den + 1) := by
  obtain ⟨hNumLow, hNumHigh⟩ := log2_bounds hNum
  obtain ⟨hDenLow, hDenHigh⟩ := log2_bounds hDen
  exact_mod_cast floorFrom_spec two_pos hDen (by exact_mod_cast hNumLow)
    (by exact_mod_cast hNumHigh) (by exact_mod_cast hDenLow) (by exact_mod_cast hDenHigh)

theorem rounds_ofRatio (negative : Bool) (num : Nat) {den : Nat} (hDen : 0 < den) :
    Rounds negative (num / den) (ofRatio negative num den) := by
  unfold ofRatio
  split
  · rename_i hZero
    rw [hZero, Nat.cast_zero, zero_div]
    exact rounds_zero negative le_rfl (two_zpow_pos _).le
  · rename_i hNum
    obtain ⟨hLow, hHigh⟩ := floorLog2_spec (Nat.pos_of_ne_zero hNum) hDen
    generalize floorLog2 num den = f at hLow hHigh
    generalize hExponent : max minExponent (f - 52) = e
    have hMin : -1074 ≤ e := hExponent ▸ le_max_left _ _
    have hPlace : f - 52 ≤ e := hExponent ▸ le_max_right _ _
    have hPos := two_zpow_pos e
    have hNearest := isNearest_roundQuotient (scaled 2 num den e).1 (scaled_pos num e two_pos hDen)
    rw [scaled_value num e two_pos hDen, Nat.cast_ofNat] at hNearest
    have hRounds := rounds_ofBinary negative hNearest hMin ?_ ?_
    · rwa [div_mul_cancel₀ _ hPos.ne'] at hRounds
    · refine (max_choice minExponent (f - 52)).imp (fun hLeft => hExponent.symm.trans hLeft)
        fun hRight => ?_
      obtain rfl : f = e + 52 := by omega
      rw [le_div_iff₀ hPos, mul_comm]
      rwa [zpow_add₀ two_ne_zero] at hLow
    · rw [div_lt_iff₀ hPos, mul_comm]
      have hTop : (2 : ℚ) ^ (f + 1) ≤ 2 ^ (e + 53) := zpow_le_zpow_right₀ one_le_two (by omega)
      rw [zpow_add₀ two_ne_zero e] at hTop
      exact hHigh.trans_le hTop

theorem overflow_le_pow : overflow ≤ 10 ^ (310 : Int) := by
  have hPow : (2 : ℚ) ^ (1024 : Int) ≤ 10 ^ (310 : Int) := by
    have hNat : 2 ^ 1024 ≤ 10 ^ 310 := by decide +kernel
    exact_mod_cast hNat
  refine le_trans ?_ hPow
  unfold overflow
  rw [show (1024 : Int) = 53 + 971 by norm_num, zpow_add₀ two_ne_zero]
  exact mul_le_mul_of_nonneg_right (by norm_num) (two_zpow_pos _).le

theorem tiny_decimal {digits : Nat} {scale : Int} (hDigits : 0 < digits)
    (hTiny : (digits.log2 : Int) + 1 + 3 * scale < -1076) (hScale : scale < 0) :
    (digits : ℚ) * 10 ^ scale ≤ 2 ^ (-1075 : Int) := by
  obtain ⟨-, hHigh⟩ := log2_bounds hDigits
  have hEight : (10 : ℚ) ^ scale ≤ 2 ^ (3 * scale) := by
    obtain ⟨k, hk⟩ := Int.eq_ofNat_of_zero_le (a := -scale) (by omega)
    obtain rfl : scale = -k := by omega
    rw [zpow_mul, zpow_neg, zpow_neg, zpow_natCast, zpow_natCast]
    exact inv_anti₀ (by positivity) (pow_le_pow_left₀ (by positivity) (by norm_num) k)
  calc (digits : ℚ) * 10 ^ scale
      ≤ 2 ^ ((digits.log2 : Int) + 1) * 2 ^ (3 * scale) :=
        mul_le_mul hHigh.le hEight (zpow_nonneg (by norm_num) _) (two_zpow_pos _).le
    _ = 2 ^ ((digits.log2 : Int) + 1 + 3 * scale) := (zpow_add₀ two_ne_zero _ _).symm
    _ ≤ 2 ^ (-1075 : Int) := zpow_le_zpow_right₀ one_le_two (by omega)

theorem rounds_ofDecimal (negative : Bool) (d : Decimal) :
    Rounds negative (d.digits * 10 ^ d.scale) (ofDecimal negative d) := by
  unfold ofDecimal
  split
  · rename_i hZero
    rw [hZero, Nat.cast_zero, zero_mul]
    exact rounds_zero negative le_rfl (two_zpow_pos _).le
  · rename_i hDigits
    have hPos : 0 < d.digits := Nat.pos_of_ne_zero hDigits
    split
    · rename_i hGreat
      refine .infinite (overflow_le_pow.trans ?_)
      have hOne : (1 : ℚ) ≤ d.digits := by exact_mod_cast hPos
      have hPower : (10 : ℚ) ^ (310 : Int) ≤ 10 ^ d.scale :=
        zpow_le_zpow_right₀ (by norm_num) hGreat
      exact hPower.trans (le_mul_of_one_le_left (zpow_nonneg (by norm_num) _) hOne)
    · split
      · rename_i hTiny
        exact rounds_zero negative (by positivity) (tiny_decimal hPos hTiny.1 hTiny.2)
      · have hTen : 0 < 10 := by norm_num
        have hValue := scaled_value d.digits (-d.scale) hTen one_pos
        have hRounds := rounds_ofRatio negative (scaled 10 d.digits 1 (-d.scale)).1
          (scaled_pos d.digits (-d.scale) hTen one_pos)
        rw [hValue] at hRounds
        simpa using hRounds

end Enroll.Number
