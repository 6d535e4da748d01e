import Enroll.Json.Printer
import Enroll.Proofs.Json.Lexing
import Enroll.Proofs.Number.Shortest
import Enroll.Proofs.Number.Whole

/-!
# Numbers in print

The text of a finite number is a numeral of JSON, and it is the number itself that is read of it,
but for the sign of zero. What is not finite is printed as `null`.
-/

namespace Enroll

open Literal Json

namespace Literal

theorem natOf_zeros (k : Nat) : natOf (Number.zeros k) = 0 := by
  induction k with
  | zero => rfl
  | succ k ih =>
    rw [Number.zeros, List.replicate_succ', natOf_append, ← Number.zeros, ih]
    rfl

end Literal

namespace Number

theorem isDigit_of_mem_zeros {k : Nat} {u : UInt16} (hu : u ∈ zeros k) : Text.isDigit u := by
  obtain rfl := List.eq_of_mem_replicate hu
  rfl

/-! ## The digits -/

/-- The digits of a natural but for the zeros at their end. -/
theorem trimZeros_ofNat {n : Nat} (hPos : 0 < n) :
    ∃ u rest, trimZeros (Text.ofNat n) = u :: rest ∧ u ≠ 0x30 ∧
      (∀ v ∈ u :: rest, Text.isDigit v) ∧ (u :: rest).length ≤ (Text.ofNat n).length ∧
      natOf (u :: rest) * 10 ^ ((Text.ofNat n).length - (u :: rest).length) = n := by
  have hSplit := trimZeros_append (Text.ofNat n)
  have hHead := Text.head_ofNat n hPos
  have hDigits := Text.isDigit_of_mem_ofNat n
  have hValue := Text.natOf_ofNat n
  rw [← hSplit] at hHead hDigits hValue
  cases hTrimmed : trimZeros (Text.ofNat n) with
  | nil =>
    rw [hTrimmed, List.nil_append, natOf_zeros] at hValue
    omega
  | cons u rest =>
    rw [hTrimmed, List.cons_append, List.head?_cons] at hHead
    rw [hTrimmed] at hDigits hValue
    refine ⟨u, rest, rfl, fun hZero => hHead (congrArg some hZero),
      fun v hv => hDigits v (List.mem_append_left _ hv), ?_, ?_⟩
    · rw [← hSplit, hTrimmed, List.length_append]
      exact Nat.le_add_right _ _
    · rw [natOf_append, natOf_zeros, zeros, List.length_replicate] at hValue
      exact hValue

theorem exponent_exponentText (e : Int) : Exponent (exponentText e) e := by
  have hDigits : Digits (Text.ofNat e.natAbs) := ⟨Text.ofNat_ne_nil _, Text.isDigit_of_mem_ofNat _⟩
  have hMark : (0x65 : UInt16) = 0x65 ∨ (0x65 : UInt16) = 0x45 := .inl rfl
  rw [exponentText]
  split
  · rename_i hNegative
    have hPower := Exponent.power hMark .minus hDigits
    have hValue : Json.signed true e.natAbs = e := by
      rw [Json.signed, if_pos rfl]
      omega
    rwa [Text.natOf_ofNat, hValue] at hPower
  · rename_i hPositive
    have hPower := Exponent.power hMark .plus hDigits
    have hValue : Json.signed false e.natAbs = e := by
      rw [Json.signed, if_neg Bool.false_ne_true]
      omega
    rwa [Text.natOf_ofNat, hValue] at hPower

/-! ## The layout -/

/-- A numeral without a sign that has this value. -/
def Worth (t : Text) (q : ℚ) : Prop :=
  ∃ d, Unsigned t d ∧ (d.digits : ℚ) * 10 ^ d.scale = q

theorem Worth.of_parts {t whole fraction exponent ds : Text} {e : Int} {q : ℚ}
    (hText : whole ++ (fraction ++ exponent) = t) (hWhole : Whole whole)
    (hFraction : Fraction fraction ds) (hExponent : Exponent exponent e)
    (hValue : (natOf (whole ++ ds) : ℚ) * 10 ^ (e - ds.length) = q) : Worth t q :=
  ⟨ofParts whole ds e, hText ▸ Unsigned.mk hWhole hFraction hExponent, hValue⟩

theorem worth_below_point {ds : Text} (hDigits : Digits ds) {place : Int} (hPlace : place ≤ 0) :
    Worth ("0." ++ zeros (-place).toNat ++ ds) (natOf ds * 10 ^ (place - ds.length)) := by
  have hFraction : Digits (zeros (-place).toNat ++ ds) := by
    refine ⟨by simp [hDigits.nonempty], fun v hv => ?_⟩
    rcases List.mem_append.mp hv with hv | hv
    · exact isDigit_of_mem_zeros hv
    · exact hDigits.digit v hv
  have hPoint : Text.ofString "0." = [0x30, 0x2E] := rfl
  refine .of_parts (by simp [hPoint]) .zero (.point hFraction) .absent ?_
  have hZeros : natOf ([0x30] ++ (zeros (-place).toNat ++ ds)) = natOf ds := by
    rw [natOf_append, natOf_append, natOf_zeros]
    simp [natOf, digitValue]
  rw [hZeros, List.length_append, zeros, List.length_replicate]
  congr 2
  omega

section Digits

variable {u : UInt16} {rest : Text} {place : Int}

theorem worth_above_point (hNonzero : u ≠ 0x30) (hDigits : ∀ v ∈ u :: rest, Text.isDigit v)
    (hPlace : (u :: rest).length ≤ place.toNat) :
    Worth (u :: rest ++ zeros (place.toNat - (u :: rest).length))
      (natOf (u :: rest) * 10 ^ (place - (u :: rest).length)) := by
  obtain ⟨k, hk⟩ := Nat.exists_eq_add_of_le hPlace
  have hAll : ∀ v ∈ rest ++ zeros k, Text.isDigit v := by
    intro v hv
    rcases List.mem_append.mp hv with hv | hv
    · exact hDigits v (List.mem_cons_of_mem u hv)
    · exact isDigit_of_mem_zeros hv
  have hScale : place - ((u :: rest).length : Int) = k := by
    rw [List.length_cons] at hk ⊢
    omega
  rw [hk, Nat.add_sub_cancel_left, hScale]
  refine .of_parts (by simp) (.digits (hDigits u List.mem_cons_self) hNonzero hAll) .absent .absent ?_
  rw [List.append_nil, ← List.cons_append, natOf_append, natOf_zeros, zeros, List.length_replicate]
  simp

theorem ofString_point : Text.ofString "." = [0x2E] := rfl

theorem worth_among_digits (hNonzero : u ≠ 0x30) (hDigits : ∀ v ∈ u :: rest, Text.isDigit v)
    (hPos : 0 < place) (hPlace : place.toNat < (u :: rest).length) :
    Worth ((u :: rest).take place.toNat ++ "." ++ (u :: rest).drop place.toNat)
      (natOf (u :: rest) * 10 ^ (place - (u :: rest).length)) := by
  obtain ⟨k, rfl⟩ : ∃ k : Nat, place = k + 1 := ⟨(place - 1).toNat, by omega⟩
  have hIndex : ((k : Int) + 1).toNat = k + 1 := by omega
  rw [hIndex] at hPlace ⊢
  rw [List.take_succ_cons, List.drop_succ_cons]
  have hWhole : Whole (u :: rest.take k) := .digits (hDigits u List.mem_cons_self) hNonzero
    fun v hv => hDigits v (List.mem_cons_of_mem u (List.mem_of_mem_take hv))
  have hFraction : Digits (rest.drop k) := by
    refine ⟨?_, fun v hv => hDigits v (List.mem_cons_of_mem u (List.mem_of_mem_drop hv))⟩
    rw [ne_eq, List.drop_eq_nil_iff]
    rw [List.length_cons] at hPlace
    omega
  refine .of_parts (by simp [ofString_point]) hWhole (.point hFraction) .absent ?_
  rw [List.cons_append, List.take_append_drop, List.length_drop]
  rw [List.length_cons] at hPlace ⊢
  congr 2
  omega

theorem worth_with_exponent (hNonzero : u ≠ 0x30) (hDigits : ∀ v ∈ u :: rest, Text.isDigit v) :
    Worth ((u :: rest).take 1 ++
        (if (u :: rest).length ≤ 1 then [] else "." ++ (u :: rest).drop 1 : Text) ++
          exponentText (place - 1))
      (natOf (u :: rest) * 10 ^ (place - (u :: rest).length)) := by
  have hWhole : Whole [u] := .digits (hDigits u List.mem_cons_self) hNonzero (by simp)
  have hExponent := exponent_exponentText (place - 1)
  cases rest with
  | nil =>
    refine .of_parts (by simp) hWhole .absent hExponent ?_
    simp
  | cons v rest =>
    have hFraction : Digits (v :: rest) :=
      ⟨List.cons_ne_nil v rest, fun w hw => hDigits w (List.mem_cons_of_mem u hw)⟩
    refine .of_parts (by simp [ofString_point]) hWhole (.point hFraction) hExponent ?_
    rw [List.singleton_append, List.length_cons (a := u)]
    congr 2
    push_cast
    ring

/-- However digits are laid out, they keep their value. -/
theorem worth_digitsText (l : Layout) (hNonzero : u ≠ 0x30)
    (hDigits : ∀ v ∈ u :: rest, Text.isDigit v) (place : Int) :
    Worth (digitsText l (u :: rest) place)
      (natOf (u :: rest) * 10 ^ (place - (u :: rest).length)) := by
  unfold digitsText
  split
  · split
    · rename_i hBelow
      exact worth_below_point ⟨List.cons_ne_nil u rest, hDigits⟩ hBelow
    · split
      · rename_i hAbove
        exact worth_above_point hNonzero hDigits hAbove
      · rename_i hBelow hAbove
        exact worth_among_digits hNonzero hDigits (not_le.mp hBelow) (not_le.mp hAbove)
  · exact worth_with_exponent hNonzero hDigits

end Digits

/-! ## The text -/

/-- The text of a positive number is worth its shortest decimal. -/
theorem worth_positiveText {m : Nat} {e : Int} (h : Canonical m e) (hPos : 0 < m) :
    Worth (positiveText m e) ((shortest m e).digits * 10 ^ (shortest m e).scale) := by
  have hShortest := shortest_pos h hPos
  obtain ⟨u, rest, hTrimmed, hNonzero, hDigits, hLength, hValue⟩ := trimZeros_ofNat hShortest
  have hWorth := worth_digitsText layout hNonzero hDigits
    ((Text.ofNat (shortest m e).digits).length + (shortest m e).scale)
  rw [← hTrimmed] at hWorth
  have hTen : (10 : ℚ) ≠ 0 := by norm_num
  have hScale : ((Text.ofNat (shortest m e).digits).length + (shortest m e).scale -
      (u :: rest).length : Int) =
      ((Text.ofNat (shortest m e).digits).length - (u :: rest).length : Nat) +
        (shortest m e).scale := by
    omega
  have hSame : (natOf (u :: rest) : ℚ) * 10 ^ ((Text.ofNat (shortest m e).digits).length -
      (u :: rest).length : Nat) = (shortest m e).digits := by
    exact_mod_cast hValue
  rwa [hTrimmed, hScale, zpow_add₀ hTen, zpow_natCast, ← mul_assoc, hSame, ← hTrimmed] at hWorth

theorem numeral_of_worth {t : Text} {q : ℚ} (hWorth : Worth t q) {minus : Text} {negative : Bool}
    (hMinus : Minus minus negative) {x : Number} (hRounds : Rounds negative q x) :
    Numeral (minus ++ t) x := by
  obtain ⟨d, hUnsigned, rfl⟩ := hWorth
  cases hUnsigned with
  | mk hWhole hFraction hExponent =>
    rw [value_ofParts] at hRounds
    exact .mk hMinus hWhole hFraction hExponent hRounds

theorem eq_zero_of_canonical {negative : Bool} {m : Nat} {e : Int} (h : Canonical m e) (hZero : m = 0) :
    Number.finite negative m e h = zero negative := by
  subst hZero
  obtain ⟨-, -, -, rfl | hGreat⟩ := h
  · rfl
  · exact absurd hGreat (by decide)

/-- Zero without its sign, and any other number as it is. -/
def unsignedZero (x : Number) : Number := if x = zero true then zero false else x

theorem numeral_text (negative : Bool) {m : Nat} {e : Int} (h : Canonical m e) :
    Numeral (text (.finite negative m e h)) (unsignedZero (.finite negative m e h)) := by
  by_cases hZero : m = 0
  · have hSame : unsignedZero (.finite negative m e h) = zero false := by
      rw [eq_zero_of_canonical h hZero, unsignedZero]
      cases negative <;> rfl
    rw [text, if_pos hZero, hSame]
    have hWorth : Worth "0" 0 := .of_parts rfl .zero .absent .absent (by simp [natOf, digitValue])
    exact numeral_of_worth hWorth .absent (rounds_zero false le_rfl (by positivity))
  · have hSame : unsignedZero (.finite negative m e h) = .finite negative m e h := by
      refine if_neg fun hEq => ?_
      injection hEq with _ hMantissa
      exact hZero hMantissa
    have hWorth := worth_positiveText h (Nat.pos_of_ne_zero hZero)
    have hRounds := rounds_shortest negative h
    rw [text, if_neg hZero, hSame]
    cases negative with
    | true => exact numeral_of_worth hWorth .minus hRounds
    | false => exact numeral_of_worth hWorth .absent hRounds

/-- What a number is once it is printed and read. -/
def printed : Number → Json
  | .nan | .infinity _ => .null
  | .finite s m e h => .number (unsignedZero (.finite s m e h))

theorem word_numberText (x : Number) : Word (numberText x) x.printed := by
  cases x with
  | nan | infinity => exact .ofNull
  | finite s m e h => exact .ofNumeral (numeral_text s h)

end Number

end Enroll
