import Enroll.Proofs.Number.Place

/-!
# The shortest decimal

The decimal that is printed for a number reads back as this number: each one that the search stops
at was read back, and all digits of a number are its exact value.
-/

namespace Enroll.Number

theorem roundQuotient_cases (n d : Nat) :
    roundQuotient n d = n / d ∨ roundQuotient n d = n / d + 1 := by
  unfold roundQuotient
  split
  · exact .inl rfl
  · split
    · exact .inr rfl
    · omega

theorem ofDecimal_of_neighbour? {x : Number} {num den : Nat} {scale : Int} {d : Decimal}
    (h : neighbour? x num den scale = some d) : ofDecimal false d = x := by
  simp only [neighbour?] at h
  generalize hn : (scaled 10 num den scale).1 = n at h
  generalize hd : (scaled 10 num den scale).2 = k at h
  split_ifs at h with hLow hHigh hHigh
  · -- both neighbours read back, and the nearer one is one of them
    obtain rfl := Option.some.inj h
    rcases roundQuotient_cases n k with hRound | hRound
    · rwa [hRound]
    · rwa [hRound]
  · obtain rfl := Option.some.inj h
    exact hLow
  · obtain rfl := Option.some.inj h
    exact hHigh

theorem ofDecimal_of_shortestFrom {x : Number} {num den : Nat} {place : Int} {d : Decimal}
    (fuel : Nat) : ∀ length : Nat, shortestFrom x num den place length fuel = some d →
      ofDecimal false d = x := by
  induction fuel with
  | zero => exact fun length h => absurd h (by simp [shortestFrom])
  | succ fuel ih =>
    intro length h
    rw [shortestFrom, Option.or_eq_some_iff] at h
    rcases h with hHere | ⟨-, hLater⟩
    · exact ofDecimal_of_neighbour? hHere
    · exact ih (length + 1) hLater

theorem exactDecimal_value (m : Nat) (e : Int) :
    ((exactDecimal m e).digits : ℚ) * 10 ^ (exactDecimal m e).scale = magnitude m e := by
  unfold exactDecimal magnitude
  split
  · rename_i hUp
    rw [zpow_zero, mul_one, Nat.cast_mul, two_pow_toNat hUp]
  · rename_i hDown
    obtain ⟨k, hk⟩ := Int.eq_ofNat_of_zero_le (a := -e) (by omega)
    obtain rfl : e = -k := by omega
    have hTen : (10 : ℚ) ^ k = 5 ^ k * 2 ^ k := by rw [← mul_pow]; norm_num
    rw [Nat.pow_eq, neg_neg, Int.toNat_natCast, Nat.cast_mul, Nat.cast_pow, zpow_neg, zpow_neg,
      zpow_natCast, zpow_natCast, hTen]
    field_simp
    norm_num

theorem ofDecimal_shortest {m : Nat} {e : Int} (h : Canonical m e) :
    ofDecimal false (shortest m e) = .finite false m e h := by
  have hNumber : ofBinary false m e = .finite false m e h := ofBinary_of_canonical false h
  simp only [shortest, hNumber]
  cases hFound : shortestFrom (.finite false m e h) (scaled 2 m 1 (-e)).1 (scaled 2 m 1 (-e)).2
      (decimalPlace (scaled 2 m 1 (-e)).1 (scaled 2 m 1 (-e)).2) 1 17 with
  | some d => exact ofDecimal_of_shortestFrom 17 1 hFound
  | none =>
    have hRounds := rounds_ofDecimal false (exactDecimal m e)
    rw [exactDecimal_value] at hRounds
    exact hRounds.unique (rounds_magnitude false h)

theorem Rounds.negate {q : ℚ} {m : Nat} {e : Int} {h : Canonical m e} {negative : Bool}
    (hRounds : Rounds negative q (.finite negative m e h)) (negative' : Bool) :
    Rounds negative' q (.finite negative' m e h) := by
  cases hRounds with
  | finite _ hSmall hNearest hEven => exact .finite h hSmall hNearest hEven

/-- Of either sign, what is printed without its sign rounds to the number. -/
theorem rounds_shortest (negative : Bool) {m : Nat} {e : Int} (h : Canonical m e) :
    Rounds negative ((shortest m e).digits * 10 ^ (shortest m e).scale) (.finite negative m e h) := by
  have hRounds := rounds_ofDecimal false (shortest m e)
  rw [ofDecimal_shortest h] at hRounds
  exact hRounds.negate negative

theorem shortest_pos {m : Nat} {e : Int} (h : Canonical m e) (hPos : 0 < m) :
    0 < (shortest m e).digits := by
  rcases Nat.eq_zero_or_pos (shortest m e).digits with hZero | hDigits
  · have hValue := ofDecimal_shortest h
    rw [ofDecimal, if_pos hZero] at hValue
    injection hValue with _ hMantissa
    omega
  · exact hDigits

end Enroll.Number
