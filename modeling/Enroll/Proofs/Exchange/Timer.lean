import Enroll.Service.Script
import Enroll.Proofs.Number.Place
import Mathlib.Data.Rat.Floor

/-!
# What a timer makes of a number

A timer takes the whole part of a limit from 1 up to what it can hold. One above that is not
shortened to it: it runs out after 1, as one does that is too small or no number.
-/

namespace Enroll

namespace Place

theorem at_le_iff {q r : ℚ} : Place.at q ≤ Place.at r ↔ q ≤ r := by
  rw [← not_lt, at_lt_iff, not_lt]

theorem eq_at_of_between {p : Place} {q r : ℚ} (hLeast : .at q ≤ p) (hMost : p ≤ .at r) :
    ∃ t, p = .at t := by
  induction p using WithBot.recBotCoe with
  | bot => exact absurd hLeast (not_le.mpr (bot_lt_at q))
  | coe p =>
    induction p using WithTop.recTopCoe with
    | top => exact absurd hMost (not_le.mpr (at_lt_top r))
    | coe t => exact ⟨t, rfl⟩

end Place

namespace Number

/-- A number that is not negative is cut to its whole part. -/
theorem truncate?_of_place? {x : Number} {q : ℚ} (h : x.place? = some (.at q)) (hSign : 0 ≤ q) :
    x.truncate? = some ⌊q⌋ := by
  cases x with
  | nan => exact absurd h nofun
  | infinity negative =>
    cases negative with
    | true => exact absurd (Option.some.inj h) (Place.bot_lt_at q).ne
    | false => exact absurd (Option.some.inj h) (Place.at_lt_top q).ne'
  | finite negative m e canonical =>
    have hValue : (signed negative m : ℚ) * 2 ^ e = q := Place.at_inj.mp (Option.some.inj h)
    obtain rfl | hPos : m = 0 ∨ 0 < m := Nat.eq_zero_or_pos m
    · obtain rfl : 0 = q := by simpa [signed] using hValue
      cases negative <;> simp [truncate?]
    · have hPlus : negative = false := by
        by_contra hMinus
        have hBelow : (signed negative m : ℚ) < 0 := by
          rw [Bool.not_eq_false] at hMinus
          simpa [signed, hMinus] using hPos
        have hNegative := mul_neg_of_neg_of_pos hBelow (two_zpow_pos e)
        linarith
      subst hPlus
      simp only [truncate?, Bool.false_eq_true, if_false, Option.some.injEq]
      rw [← hValue]
      split
      · rename_i hUp
        rw [← two_pow_toNat hUp, ← Int.cast_natCast (Nat.pow 2 e.toNat), ← Int.cast_mul,
          Int.floor_intCast]
        exact Int.natCast_mul m _
      · rename_i hDown
        have hPower : (2 : ℚ) ^ e = ((Nat.pow 2 (-e).toNat : Nat) : ℚ)⁻¹ := by
          rw [two_pow_toNat (by omega), zpow_neg, inv_inv]
        rw [hPower, ← div_eq_mul_inv, Int.floor_div_natCast]
        simp [signed]

end Number

/-- From 1 up to what it can hold a timer takes the whole part of its limit, above that 1. -/
theorem timerDelay_spec {x : Number} {p : Place} (hPlace : x.place? = some p)
    (hLeast : .at 1 ≤ p) :
    (p ≤ .at maxDelay → .at (timerDelay x) ≤ p ∧ p < .at (timerDelay x + 1)) ∧
      (.at maxDelay < p → timerDelay x = 1) := by
  have hNan : x.isNan = false := by
    rw [Bool.eq_false_iff, ne_eq, Number.isNan_iff, hPlace]
    nofun
  have hLow : x.ltInt 1 = false := by
    rw [Bool.eq_false_iff, ne_eq, Number.ltInt_iff]
    rintro ⟨p', hSame, hBelow⟩
    obtain rfl := Option.some.inj (hPlace.symm.trans hSame)
    exact absurd (hBelow.trans_le hLeast) (by simp)
  have hHigh : x.gtInt maxDelay ↔ .at maxDelay < p := by
    rw [Number.gtInt_iff, hPlace]
    simp
  rw [timerDelay, hNan, hLow]
  constructor
  · intro hMost
    have hHeld : x.gtInt maxDelay = false := by
      rw [Bool.eq_false_iff, ne_eq, hHigh]
      exact not_lt.mpr hMost
    obtain ⟨q, rfl⟩ := Place.eq_at_of_between hLeast hMost
    have hFirst : 1 ≤ q := Place.at_le_iff.mp hLeast
    have hWhole := Number.truncate?_of_place? hPlace (by linarith)
    have hSign : 0 ≤ ⌊q⌋ := Int.floor_nonneg.mpr (by linarith)
    rw [hHeld, hWhole, Place.at_le_iff, Place.at_lt_iff]
    have hCast : ((⌊q⌋.toNat : Nat) : ℚ) = ⌊q⌋ := by exact_mod_cast Int.toNat_of_nonneg hSign
    constructor
    · exact hCast.trans_le (Int.floor_le q)
    · exact (Int.lt_floor_add_one q).trans_eq (by rw [← hCast]; rfl)
  · intro hMore
    rw [hHigh.mpr hMore]
    rfl

theorem timerDelay_ofNat {n : Nat} (hFirst : 1 ≤ n) (hLast : n ≤ maxDelay) :
    timerDelay (.ofNat n) = n := by
  have hPlace := Number.place?_ofNat hFirst (hLast.trans_lt (by decide))
  have hLeast : Place.at 1 ≤ .at n := Place.at_le_iff.mpr (by exact_mod_cast hFirst)
  have hMost : Place.at n ≤ .at maxDelay := Place.at_le_iff.mpr (by exact_mod_cast hLast)
  obtain ⟨hLow, hHigh⟩ := (timerDelay_spec hPlace hLeast).1 hMost
  have hLow' : timerDelay (.ofNat n) ≤ n := by exact_mod_cast Place.at_le_iff.mp hLow
  have hHigh' : n < timerDelay (.ofNat n) + 1 := by exact_mod_cast Place.at_lt_iff.mp hHigh
  omega

end Enroll
