import Enroll.Proofs.Number.Decimal
import Mathlib.Order.WithBot

/-!
# The order of the numbers

Every number but `nan` has a place among the rationals and the two infinities. Whether it is whole,
and how it compares with an integer, is read off its place. At the place of a positive integer there
is one number, `Number.ofNat`; below `2 ^ 53` each has one.
-/

namespace Enroll

/-- The rationals between the two infinities. -/
abbrev Place := WithBot (WithTop ℚ)

def Place.at (q : ℚ) : Place := ((q : WithTop ℚ) : Place)

@[simp] theorem Place.at_lt_iff {q r : ℚ} : Place.at q < Place.at r ↔ q < r := by
  rw [Place.at, Place.at, WithBot.coe_lt_coe, WithTop.coe_lt_coe]

@[simp] theorem Place.at_inj {q r : ℚ} : Place.at q = Place.at r ↔ q = r := by
  rw [Place.at, Place.at, WithBot.coe_inj, WithTop.coe_inj]

theorem Place.bot_lt_at (q : ℚ) : ⊥ < Place.at q := WithBot.bot_lt_coe _

theorem Place.at_lt_top (q : ℚ) : Place.at q < ⊤ := WithBot.coe_lt_coe.mpr (WithTop.coe_lt_top q)

namespace Number

def signed (negative : Bool) (m : Nat) : Int := if negative then -m else m

def place? : Number → Option Place
  | .nan => none
  | .infinity negative => some (if negative then ⊥ else ⊤)
  | .finite negative m e _ => some (.at (signed negative m * 2 ^ e))

theorem isNan_iff {x : Number} : x.isNan ↔ x.place? = none := by
  cases x <;> simp [isNan, place?]

theorem two_pow_toNat {e : Int} (h : 0 ≤ e) : ((Nat.pow 2 e.toNat : Nat) : ℚ) = 2 ^ e := by
  obtain ⟨k, rfl⟩ := Int.eq_ofNat_of_zero_le h
  rw [Nat.pow_eq, Int.toNat_natCast, Nat.cast_pow, Nat.cast_ofNat, zpow_natCast]

section Whole

variable (n b : Int) {e : Int}

theorem whole_lt_iff (h : 0 ≤ e) :
    n * (Nat.pow 2 e.toNat : Nat) < b ↔ (n : ℚ) * 2 ^ e < b := by
  rw [← two_pow_toNat h]
  exact_mod_cast Iff.rfl

theorem lt_whole_iff (h : 0 ≤ e) :
    b < n * (Nat.pow 2 e.toNat : Nat) ↔ (b : ℚ) < n * 2 ^ e := by
  rw [← two_pow_toNat h]
  exact_mod_cast Iff.rfl

theorem fraction_lt_iff (h : e < 0) :
    n < b * (Nat.pow 2 (-e).toNat : Nat) ↔ (n : ℚ) * 2 ^ e < b := by
  rw [← lt_div_iff₀ (two_zpow_pos e), div_eq_mul_inv, ← zpow_neg, ← two_pow_toNat (by omega)]
  exact_mod_cast Iff.rfl

theorem lt_fraction_iff (h : e < 0) :
    b * (Nat.pow 2 (-e).toNat : Nat) < n ↔ (b : ℚ) < n * 2 ^ e := by
  rw [← div_lt_iff₀ (two_zpow_pos e), div_eq_mul_inv, ← zpow_neg, ← two_pow_toNat (by omega)]
  exact_mod_cast Iff.rfl

theorem whole_eq_iff (h : 0 ≤ e) :
    n * (Nat.pow 2 e.toNat : Nat) = b ↔ (n : ℚ) * 2 ^ e = b := by
  rw [← two_pow_toNat h]
  exact_mod_cast Iff.rfl

theorem fraction_eq_iff (h : e < 0) :
    n = b * (Nat.pow 2 (-e).toNat : Nat) ↔ (n : ℚ) * 2 ^ e = b := by
  rw [← eq_div_iff (two_zpow_pos e).ne', div_eq_mul_inv, ← zpow_neg, ← two_pow_toNat (by omega)]
  exact_mod_cast Iff.rfl

end Whole

theorem ltInt_iff {x : Number} {b : Int} : x.ltInt b ↔ ∃ p, x.place? = some p ∧ p < .at b := by
  cases x with
  | nan => simp [ltInt, place?]
  | infinity negative =>
    cases negative with
    | true => simp [ltInt, place?, Place.bot_lt_at]
    | false => simp [ltInt, place?]
  | finite negative m e canonical =>
    simp only [ltInt, place?, Option.some.injEq, exists_eq_left', Place.at_lt_iff]
    split
    · rename_i h
      rw [decide_eq_true_iff]
      exact whole_lt_iff (signed negative m) b h
    · rename_i h
      rw [decide_eq_true_iff]
      exact fraction_lt_iff (signed negative m) b (not_le.mp h)

theorem gtInt_iff {x : Number} {b : Int} : x.gtInt b ↔ ∃ p, x.place? = some p ∧ .at b < p := by
  cases x with
  | nan => simp [gtInt, place?]
  | infinity negative =>
    cases negative with
    | true => simp [gtInt, place?]
    | false => simp [gtInt, place?, Place.at_lt_top]
  | finite negative m e canonical =>
    simp only [gtInt, place?, Option.some.injEq, exists_eq_left', Place.at_lt_iff]
    split
    · rename_i h
      rw [decide_eq_true_iff]
      exact lt_whole_iff (signed negative m) b h
    · rename_i h
      rw [decide_eq_true_iff]
      exact lt_fraction_iff (signed negative m) b (not_le.mp h)

theorem signed_mul (negative : Bool) (m k : Nat) :
    signed negative (m * k) = signed negative m * k := by
  cases negative with
  | true => simp [signed]
  | false => simp [signed]

theorem dvd_signed_iff {negative : Bool} {k m : Nat} : (k : Int) ∣ signed negative m ↔ k ∣ m := by
  cases negative with
  | true => simp [signed, Int.natCast_dvd_natCast]
  | false => simp [signed, Int.natCast_dvd_natCast]

theorem toInt?_eq_some_iff {x : Number} {n : Int} :
    x.toInt? = some n ↔ x.place? = some (.at n) := by
  cases x with
  | nan => simp [toInt?, place?]
  | infinity negative =>
    cases negative with
    | true => simpa [toInt?, place?] using (Place.bot_lt_at n).ne
    | false => simpa [toInt?, place?] using (Place.at_lt_top n).ne'
  | finite negative m e canonical =>
    simp only [toInt?, place?, Option.some.injEq, Place.at_inj]
    split
    · rename_i hUp
      rw [Option.some_inj, ← whole_eq_iff _ n hUp, ← signed_mul]
      exact Iff.rfl
    · rename_i hDown
      rw [← fraction_eq_iff _ n (not_le.mp hDown)]
      have hPos : 0 < Nat.pow 2 (-e).toNat := Nat.two_pow_pos _
      generalize Nat.pow 2 (-e).toNat = k at hPos ⊢
      split
      · rename_i hWhole
        obtain ⟨q, rfl⟩ := Nat.dvd_of_mod_eq_zero hWhole
        rw [Nat.mul_div_cancel_left q hPos, Nat.mul_comm k q, signed_mul, Option.some_inj]
        exact (mul_left_inj' (by omega)).symm
      · rename_i hCut
        refine iff_of_false (by simp) fun hEq => hCut ?_
        exact Nat.mod_eq_zero_of_dvd (dvd_signed_iff.mp ⟨n, by rw [hEq, Int.mul_comm]⟩)

/-! ## Naturals -/

/-- A number that has a place of its own is the nearest to it. -/
theorem rounds_magnitude (negative : Bool) {m : Nat} {e : Int} (h : Canonical m e) :
    Rounds negative (magnitude m e) (.finite negative m e h) := by
  refine .finite h ?_ ?_ ?_
  · obtain ⟨hDigits, -, hExponent, -⟩ := canonical_iff.mp h
    have hLess : (m : ℚ) < 2 ^ 53 - 1 / 2 := by
      have hMost : (m : ℚ) + 1 ≤ 2 ^ 53 := by exact_mod_cast hDigits
      linarith
    exact lt_overflow_of_exponent hExponent hLess
  · intro m' e' _
    rw [sub_self, abs_zero]
    exact abs_nonneg _
  · intro m' e' h' hTie
    rw [sub_self, abs_zero, eq_comm, abs_eq_zero, sub_eq_zero] at hTie
    exact .inl (canonical_unique h' h hTie.symm)

theorem ofNat_eq_finite {n m : Nat} {e : Int} (h : Canonical m e) (hValue : magnitude m e = n) :
    ofNat n = .finite false m e h := by
  have hRounds := rounds_ofRatio false n one_pos
  rw [Nat.cast_one, div_one, ← hValue] at hRounds
  exact hRounds.unique (rounds_magnitude false h)

/-- At the place of a positive integer there is no other number. -/
theorem eq_ofNat {x : Number} {n : Nat} (hPos : 0 < n) (h : x.place? = some (.at n)) :
    x = ofNat n := by
  cases x with
  | nan => exact absurd h nofun
  | infinity negative =>
    have hPlace := Option.some.inj h
    cases negative with
    | true => exact absurd hPlace (Place.bot_lt_at n).ne
    | false => exact absurd hPlace (Place.at_lt_top n).ne'
  | finite negative m e canonical =>
    have hValue : (signed negative m : ℚ) * 2 ^ e = n := Place.at_inj.mp (Option.some.inj h)
    have hn : (0 : ℚ) < n := by exact_mod_cast hPos
    cases negative with
    | false => exact (ofNat_eq_finite canonical hValue).symm
    | true =>
      have hBelow : (signed true m : ℚ) * 2 ^ e ≤ 0 := by
        refine mul_nonpos_of_nonpos_of_nonneg ?_ (two_zpow_pos e).le
        simp [signed]
      exact absurd hValue (by linarith)

/-- Every natural that fits the mantissa has a number of its own. -/
theorem canonical_of_nat {n : Nat} (hPos : 0 < n) (h : n < 2 ^ 53) :
    ∃ m e, Canonical m e ∧ magnitude m e = n := by
  have hLow : 2 ^ n.log2 ≤ n := Nat.log2_self_le hPos.ne'
  have hHigh : n < 2 ^ (n.log2 + 1) := Nat.lt_log2_self
  have hPlace : n.log2 ≤ 52 := by
    have hPower : 2 ^ n.log2 < 2 ^ 53 := hLow.trans_lt h
    have hLess := (Nat.pow_lt_pow_iff_right (by norm_num)).mp hPower
    omega
  refine ⟨n * 2 ^ (52 - n.log2), n.log2 - 52, canonical_iff.mpr ⟨?_, by omega, by omega, .inr ?_⟩, ?_⟩
  · calc n * 2 ^ (52 - n.log2) < 2 ^ (n.log2 + 1) * 2 ^ (52 - n.log2) :=
        Nat.mul_lt_mul_of_pos_right hHigh (Nat.two_pow_pos _)
      _ = 2 ^ 53 := by rw [← pow_add]; congr 1; omega
  · calc 2 ^ 52 = 2 ^ n.log2 * 2 ^ (52 - n.log2) := by rw [← pow_add]; congr 1; omega
      _ ≤ n * 2 ^ (52 - n.log2) := Nat.mul_le_mul_right _ hLow
  · obtain ⟨k, hk⟩ := Int.eq_ofNat_of_zero_le (a := 52 - n.log2) (by omega)
    have hShift : 52 - n.log2 = k := by omega
    have hExponent : (n.log2 : Int) - 52 = -k := by omega
    rw [magnitude, hShift, hExponent, zpow_neg, zpow_natCast, Nat.cast_mul, Nat.cast_pow,
      Nat.cast_ofNat, mul_inv_cancel_right₀ (by positivity)]

theorem place?_ofNat {n : Nat} (hPos : 0 < n) (h : n < 2 ^ 53) :
    (ofNat n).place? = some (.at n) := by
  obtain ⟨m, e, hCanonical, hValue⟩ := canonical_of_nat hPos h
  rw [ofNat_eq_finite hCanonical hValue, place?, ← hValue]
  rfl

end Number

end Enroll
