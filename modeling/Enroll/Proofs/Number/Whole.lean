import Enroll.Proofs.Number.Digits
import Enroll.Proofs.Number.Place
import Mathlib.Data.List.TakeWhile

/-!
# The text of whole numbers

The number of a natural below `2 ^ 53` is written in the digits of the natural. Of its decimals on a
grid of whole numbers none reads back but the natural itself, so the shortest only leaves out zeros
at its end, which are put back.
-/

namespace Enroll

namespace Text

open Number

theorem ofNat_mul_pow {q : Nat} (hPos : 0 < q) (k : Nat) :
    ofNat (q * 10 ^ k) = ofNat q ++ zeros k := by
  induction k with
  | zero => simp [zeros]
  | succ k ih =>
    have hSplit : q * 10 ^ (k + 1) = 10 * (q * 10 ^ k) + 0 := by ring
    rw [hSplit, ← ofNat_append (by positivity) (by norm_num), ih, zeros, zeros,
      List.replicate_succ', List.append_assoc]
    rfl

end Text

namespace Number

/-! ## Zeros at the end -/

theorem trimZeros_append (t : Text) :
    trimZeros t ++ zeros (t.length - (trimZeros t).length) = t := by
  let cut := t.reverse.takeWhile (· == 0x30)
  have hSplit : trimZeros t ++ cut.reverse = t := by
    rw [trimZeros, ← List.reverse_append, List.takeWhile_append_dropWhile, List.reverse_reverse]
  have hZeros : cut.reverse = zeros cut.reverse.length := by
    refine List.eq_replicate_iff.mpr ⟨rfl, fun u hu => ?_⟩
    simpa using List.mem_takeWhile_imp (List.mem_reverse.mp hu)
  have hLength : t.length - (trimZeros t).length = cut.reverse.length := by
    have hSum := congrArg List.length hSplit
    rw [List.length_append] at hSum
    omega
  rw [hLength, ← hZeros, hSplit]

theorem digitsText_trimZeros {t : Text} {k : Nat} (hSome : t ≠ []) (hFits : t.length + k ≤ 21) :
    digitsText layout (trimZeros t) (t.length + k) = t ++ zeros k := by
  have hLength : 0 < t.length := List.length_pos_iff.mpr hSome
  have hTrimmed : (trimZeros t).length ≤ t.length := by
    conv_rhs => rw [← trimZeros_append t]
    simp
  have hPlace : ((t.length : Int) + k).toNat = t.length + k := by omega
  have hZeros : zeros (t.length + k - (trimZeros t).length) =
      zeros (t.length - (trimZeros t).length) ++ zeros k := by
    rw [zeros, zeros, zeros, ← List.replicate_add]
    congr 1
    omega
  rw [digitsText, hPlace, if_pos (by simp only [layout]; omega), if_neg (by omega),
    if_pos (by omega), hZeros, ← List.append_assoc, trimZeros_append]

/-! ## Reading back -/

theorem rounds_nat {k n : Nat} (hPos : 0 < n) (h : n < 2 ^ 53) (hRounds : Rounds false k (ofNat n)) :
    k = n := by
  obtain ⟨m, e, hCanonical, hValue⟩ := canonical_of_nat hPos h
  rw [ofNat_eq_finite hCanonical hValue] at hRounds
  cases hRounds with
  | finite _ _ hNearest =>
    rw [hValue] at hNearest
    have hn : (0 : ℚ) < n := by exact_mod_cast hPos
    have hTop : (n : ℚ) < 2 ^ 53 := by exact_mod_cast h
    rcases lt_or_ge k (2 ^ 53) with hSmall | hGreat
    · have hItself : ∃ m' e', Canonical m' e' ∧ magnitude m' e' = k := by
        rcases Nat.eq_zero_or_pos k with rfl | hk
        · exact ⟨0, -1074, by decide, by simp [magnitude]⟩
        · exact canonical_of_nat hk hSmall
      obtain ⟨m', e', hCanonical', hValue'⟩ := hItself
      have hNear := hNearest m' e' hCanonical'
      rw [hValue', sub_self, abs_zero] at hNear
      exact_mod_cast sub_eq_zero.mp (abs_eq_zero.mp (le_antisymm hNear (abs_nonneg _)))
    · -- the power of two is a number too, and nearer
      have hPower : magnitude (2 ^ 52) 1 = 2 ^ 53 := by norm_num [magnitude]
      have hAbove : (2 : ℚ) ^ 53 ≤ k := by exact_mod_cast hGreat
      have hNear := hNearest (2 ^ 52) 1 (by decide)
      rw [hPower, abs_of_nonneg (by linarith), abs_of_nonneg (by linarith)] at hNear
      exact absurd hNear (by linarith)

theorem ofDecimal_eq_ofNat_iff {q k n : Nat} (hPos : 0 < n) (h : n < 2 ^ 53) :
    ofDecimal false ⟨q, k⟩ = ofNat n ↔ q * 10 ^ k = n := by
  have hRounds := rounds_ofDecimal false ⟨q, k⟩
  have hValue : ((q * 10 ^ k : Nat) : ℚ) = (q : ℚ) * 10 ^ (k : Int) := by
    rw [zpow_natCast]
    exact_mod_cast rfl
  rw [← hValue] at hRounds
  constructor
  · intro hEq
    rw [hEq] at hRounds
    exact rounds_nat hPos h hRounds
  · intro hEq
    rw [hEq] at hRounds
    have hExact := rounds_ofRatio false n one_pos
    rw [Nat.cast_one, div_one] at hExact
    exact hRounds.unique hExact

/-! ## The shortest decimal -/

theorem decimalLength_spec {n : Nat} (hPos : 0 < n) :
    (10 : ℚ) ^ ((decimalLength n : Int) - 1) ≤ n ∧ (n : ℚ) < 10 ^ ((decimalLength n : Int) - 1 + 1) := by
  have hLength : 0 < decimalLength n := Nat.length_toDigits_pos
  have hHigh : n < 10 ^ decimalLength n :=
    (Nat.length_toDigits_le_iff (by norm_num) hLength).mp le_rfl
  have hLow : 10 ^ (decimalLength n - 1) ≤ n := by
    rcases Nat.eq_zero_or_pos (decimalLength n - 1) with hZero | hMore
    · rw [hZero]
      exact hPos
    · have hNot := mt (Nat.length_toDigits_le_iff (b := 10) (by norm_num) hMore).mpr
        (by change ¬ decimalLength n ≤ _; omega)
      exact not_lt.mp hNot
  obtain ⟨k, hk⟩ : ∃ k, decimalLength n = k + 1 := ⟨_, (Nat.sub_add_cancel hLength).symm⟩
  rw [hk] at hLow hHigh ⊢
  rw [sub_add_cancel, zpow_natCast, Nat.cast_add, Nat.cast_one, add_sub_cancel_right, zpow_natCast]
  exact ⟨by exact_mod_cast hLow, by exact_mod_cast hHigh⟩

theorem decimalPlace_spec {num den : Nat} (hNum : 0 < num) (hDen : 0 < den) :
    (10 : ℚ) ^ (decimalPlace num den - 1) ≤ num / den ∧ (num : ℚ) / den < 10 ^ decimalPlace num den := by
  obtain ⟨hNumLow, hNumHigh⟩ := decimalLength_spec hNum
  obtain ⟨hDenLow, hDenHigh⟩ := decimalLength_spec hDen
  have hTen : ((10 : Nat) : ℚ) = 10 := Nat.cast_ofNat
  have hSpec := floorFrom_spec (show 0 < 10 by norm_num) hDen (hTen ▸ hNumLow) (hTen ▸ hNumHigh)
    (hTen ▸ hDenLow) (hTen ▸ hDenHigh)
  rw [sub_sub_sub_cancel_right, hTen] at hSpec
  rw [decimalPlace, add_sub_cancel_right]
  exact hSpec

section Shortest

variable {n den : Nat}

theorem neighbour?_of_whole (hPos : 0 < n) (h : n < 2 ^ 53) (hDen : 0 < den) (k : Nat) :
    neighbour? (ofNat n) (n * den) den k = if 10 ^ k ∣ n then some ⟨n / 10 ^ k, k⟩ else none := by
  have hScaled : scaled 10 (n * den) den k = (n * den, den * 10 ^ k) := by
    rw [scaled, if_pos (Int.natCast_nonneg k), Int.toNat_natCast]
    rfl
  have hFloor : n * den / (den * 10 ^ k) = n / 10 ^ k := by
    rw [Nat.mul_comm n den, Nat.mul_div_mul_left _ _ hDen]
  have hLow : n / 10 ^ k * 10 ^ k = n ↔ 10 ^ k ∣ n :=
    ⟨fun hEq => ⟨_, hEq.symm.trans (Nat.mul_comm _ _)⟩, Nat.div_mul_cancel⟩
  have hHigh : (n / 10 ^ k + 1) * 10 ^ k ≠ n := by
    rw [Nat.mul_comm]
    exact (Nat.lt_mul_div_succ n (by positivity)).ne'
  simp only [neighbour?, hScaled, hFloor, ofDecimal_eq_ofNat_iff hPos h, hLow, hHigh, if_false]

theorem shortestFrom_of_whole (hPos : 0 < n) (h : n < 2 ^ 53) (hDen : 0 < den) {place : Int}
    (fuel : Nat) : ∀ length : Nat, length ≤ place → place < length + fuel →
      ∃ q k : Nat, q * 10 ^ k = n ∧
        shortestFrom (ofNat n) (n * den) den place length fuel = some ⟨q, k⟩ := by
  induction fuel with
  | zero => intro length hLow hHigh; omega
  | succ fuel ih =>
    intro length hLow hHigh
    obtain ⟨k, hk⟩ := Int.eq_ofNat_of_zero_le (a := place - length) (by omega)
    rw [shortestFrom, hk, neighbour?_of_whole hPos h hDen]
    split
    · rename_i hDvd
      exact ⟨_, k, Nat.div_mul_cancel hDvd, rfl⟩
    · rename_i hCut
      have hMore : k ≠ 0 := by
        rintro rfl
        exact hCut (one_dvd n)
      obtain ⟨q, k', hValue, hFound⟩ := ih (length + 1) (by push_cast; omega) (by push_cast; omega)
      exact ⟨q, k', hValue, hFound⟩

/-- Digits at the end may be left out of a whole number if they are zeros. -/
theorem shortest_of_whole {m : Nat} {e : Int} (hPos : 0 < n) (h : n < 2 ^ 53)
    (hCanonical : Canonical m e) (hValue : magnitude m e = n) :
    ∃ q k : Nat, q * 10 ^ k = n ∧ shortest m e = ⟨q, k⟩ := by
  have hNumber : ofBinary false m e = ofNat n := by
    rw [ofBinary_of_canonical false hCanonical, ofNat_eq_finite hCanonical hValue]
  have hDen := scaled_pos m (-e) two_pos one_pos
  have hRatio : ((scaled 2 m 1 (-e)).1 : ℚ) / (scaled 2 m 1 (-e)).2 = n := by
    rw [scaled_value m (-e) two_pos one_pos, ← hValue, magnitude]
    simp
  rw [shortest]
  generalize (scaled 2 m 1 (-e)).2 = den at hDen hRatio
  generalize (scaled 2 m 1 (-e)).1 = num at hRatio
  have hn : (1 : ℚ) ≤ n := by exact_mod_cast hPos
  have hd : (0 : ℚ) < den := by exact_mod_cast hDen
  obtain rfl : num = n * den := by
    rw [div_eq_iff hd.ne'] at hRatio
    exact_mod_cast hRatio
  obtain ⟨hLow, hHigh⟩ := decimalPlace_spec (Nat.mul_pos hPos hDen) hDen
  rw [hRatio] at hLow hHigh
  have hFirst : 1 ≤ decimalPlace (n * den) den := by
    by_contra hBelow
    have hOne : (10 : ℚ) ^ decimalPlace (n * den) den ≤ 10 ^ (0 : Int) :=
      zpow_le_zpow_right₀ (by norm_num) (by omega)
    rw [zpow_zero] at hOne
    linarith
  have hLast : decimalPlace (n * den) den < 1 + 17 := by
    by_contra hAbove
    have hMany : (10 : ℚ) ^ (17 : Int) ≤ 10 ^ (decimalPlace (n * den) den - 1) :=
      zpow_le_zpow_right₀ (by norm_num) (by omega)
    have hTop : (n : ℚ) < 10 ^ (17 : Int) := by
      have hLess : n < 10 ^ 17 := by omega
      exact_mod_cast hLess
    linarith
  obtain ⟨q, k, hDigits, hFound⟩ := shortestFrom_of_whole hPos h hDen 17 1 hFirst hLast
  refine ⟨q, k, hDigits, ?_⟩
  rw [hNumber, hFound, Option.getD_some]

end Shortest

/-! ## The text -/

theorem text_ofNat {n : Nat} (hPos : 0 < n) (h : n < 2 ^ 53) : (ofNat n).text = Text.ofNat n := by
  obtain ⟨m, e, hCanonical, hValue⟩ := canonical_of_nat hPos h
  obtain ⟨q, k, hDigits, hShortest⟩ := shortest_of_whole hPos h hCanonical hValue
  have hm : m ≠ 0 := by
    rintro rfl
    rw [magnitude, Nat.cast_zero, zero_mul, eq_comm, Nat.cast_eq_zero] at hValue
    omega
  have hq : 0 < q := by
    rcases Nat.eq_zero_or_pos q with rfl | hq
    · omega
    · exact hq
  have hText : Text.ofNat q ++ zeros k = Text.ofNat n := by rw [← Text.ofNat_mul_pow hq, hDigits]
  have hLength : (Text.ofNat q).length + k ≤ 16 := by
    have hFits := Text.length_ofNat_le (k := 16) (by norm_num) (n := n) (by omega)
    rw [← hText, List.length_append, zeros, List.length_replicate] at hFits
    exact hFits
  rw [ofNat_eq_finite hCanonical hValue, text, if_neg hm, positiveText, hShortest]
  simp only [Bool.false_eq_true, if_false]
  rw [digitsText_trimZeros (Text.ofNat_ne_nil q) (by omega), hText]

end Number

end Enroll
