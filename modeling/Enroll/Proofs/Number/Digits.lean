import Enroll.Number.Literal
import Mathlib.Data.List.Basic
import Mathlib.Data.List.Induction
import Mathlib.Data.Nat.Digits.Defs
import Mathlib.Tactic.Ring

/-!
# Decimal digits

`Text.ofNat` writes a natural in the one way without a leading zero, and `Literal.natOf` reads it.
-/

namespace Enroll

theorem Text.isDigit_iff {u : UInt16} : Text.isDigit u ↔ 0x30 ≤ u.toNat ∧ u.toNat ≤ 0x39 := by
  simp [Text.isDigit, UInt16.le_iff_toNat_le]

namespace Literal

theorem digitValue_lt {u : UInt16} (h : Text.isDigit u) : digitValue u < 10 := by
  rw [Text.isDigit_iff] at h
  unfold digitValue
  omega

@[simp] theorem natOf_nil : natOf [] = 0 := rfl

theorem foldl_digits (n : Nat) (ds : Text) :
    ds.foldl (fun n u => n * 10 + digitValue u) n = n * 10 ^ ds.length + natOf ds := by
  induction ds generalizing n with
  | nil => simp
  | cons u rest ih =>
    rw [natOf, List.foldl_cons, List.foldl_cons, ih, ih (0 * 10 + digitValue u), List.length_cons,
      pow_succ]
    ring

theorem natOf_append (ds es : Text) : natOf (ds ++ es) = natOf ds * 10 ^ es.length + natOf es := by
  rw [natOf, List.foldl_append, foldl_digits]
  rfl

theorem natOf_concat (ds : Text) (u : UInt16) : natOf (ds ++ [u]) = 10 * natOf ds + digitValue u := by
  rw [natOf_append]
  simp [natOf]
  ring

end Literal

namespace Text

open Literal

theorem ofNat_of_lt_ten {d : Nat} (h : d < 10) : ofNat d = [(0x30 + d).toUInt16] := by
  rw [ofNat, Nat.toDigits_of_lt_base h, List.map_singleton, Nat.toNat_digitChar_of_lt_ten h]

theorem ofNat_digitValue {u : UInt16} (h : isDigit u) : ofNat (digitValue u) = [u] := by
  rw [ofNat_of_lt_ten (digitValue_lt h)]
  rw [isDigit_iff] at h
  have hValue : 0x30 + digitValue u = u.toNat := by
    unfold digitValue
    omega
  rw [hValue]
  simp

theorem ofNat_append {n d : Nat} (hPos : 0 < n) (hDigit : d < 10) :
    ofNat n ++ ofNat d = ofNat (10 * n + d) := by
  rw [ofNat, ofNat, ← List.map_append, Nat.toDigits_append_toDigits (by omega) hPos hDigit]
  rfl

theorem digit_of_lt_ten {d : Nat} (h : d < 10) :
    isDigit (0x30 + d).toUInt16 ∧ digitValue (0x30 + d).toUInt16 = d := by
  rw [isDigit_iff, digitValue, Nat.toUInt16_eq, UInt16.toNat_ofNat']
  omega

theorem digits_induction {motive : Nat → Prop} (small : ∀ d, d < 10 → motive d)
    (step : ∀ n d, 0 < n → d < 10 → motive n → motive (10 * n + d)) (n : Nat) : motive n := by
  induction n using Nat.strong_induction_on with
  | _ n ih =>
    by_cases hSmall : n < 10
    · exact small n hSmall
    · have hSplit := step (n / 10) (n % 10) (by omega) (by omega) (ih (n / 10) (by omega))
      rwa [Nat.div_add_mod] at hSplit

theorem isDigit_of_mem_ofNat (n : Nat) : ∀ u ∈ ofNat n, isDigit u := by
  induction n using digits_induction with
  | small d hd =>
    intro u hu
    rw [ofNat_of_lt_ten hd, List.mem_singleton] at hu
    exact hu ▸ (digit_of_lt_ten hd).1
  | step n d hPos hd ih =>
    intro u hu
    rw [← ofNat_append hPos hd, ofNat_of_lt_ten hd, List.mem_append, List.mem_singleton] at hu
    rcases hu with hu | rfl
    · exact ih u hu
    · exact (digit_of_lt_ten hd).1

theorem natOf_ofNat (n : Nat) : natOf (ofNat n) = n := by
  induction n using digits_induction with
  | small d hd =>
    rw [ofNat_of_lt_ten hd, ← List.nil_append [_], natOf_concat, (digit_of_lt_ten hd).2]
    simp
  | step n d hPos hd ih =>
    rw [← ofNat_append hPos hd, ofNat_of_lt_ten hd, natOf_concat, ih, (digit_of_lt_ten hd).2]

theorem ofNat_injective : Function.Injective ofNat :=
  Function.LeftInverse.injective natOf_ofNat

theorem ofNat_ne_nil (n : Nat) : ofNat n ≠ [] := by
  rw [ofNat, ne_eq, List.map_eq_nil_iff]
  exact List.ne_nil_of_length_pos Nat.length_toDigits_pos

theorem head_ofNat (n : Nat) (hPos : 0 < n) : (ofNat n).head? ≠ some 0x30 := by
  induction n using digits_induction with
  | small d hd =>
    intro hHead
    rw [ofNat_of_lt_ten hd, List.head?_cons, Option.some_inj] at hHead
    have hValue := (digit_of_lt_ten hd).2
    rw [hHead] at hValue
    have hZero : digitValue 0x30 = 0 := rfl
    omega
  | step n d hn hd ih =>
    rw [← ofNat_append hn hd, List.head?_append_of_ne_nil (ofNat n) (ofNat_ne_nil n)]
    exact ih hn

theorem natOf_pos {u : UInt16} {ds : Text} (hDigit : isDigit u) (hFirst : u ≠ 0x30) :
    0 < natOf (u :: ds) := by
  have hValue : 0 < digitValue u := by
    rw [isDigit_iff] at hDigit
    have hOther : u.toNat ≠ 0x30 := fun hEq => hFirst (UInt16.toNat_inj.mp hEq)
    unfold digitValue
    omega
  rw [← List.singleton_append, natOf_append]
  have hOne : natOf [u] = digitValue u := by simp [natOf]
  rw [hOne]
  positivity

theorem ofNat_natOf {u : UInt16} {ds : Text} (hDigit : isDigit u) (hDigits : ∀ v ∈ ds, isDigit v)
    (hFirst : u ≠ 0x30 ∨ ds = []) : ofNat (natOf (u :: ds)) = u :: ds := by
  induction ds using List.reverseRecOn with
  | nil =>
    have hOne : natOf [u] = digitValue u := by simp [natOf]
    rw [hOne, ofNat_digitValue hDigit]
  | append_singleton ds v ih =>
    have hNonzero : u ≠ 0x30 := hFirst.resolve_right (by simp)
    have hLast : isDigit v := hDigits v (by simp)
    rw [← List.cons_append, natOf_concat, ← ofNat_append (natOf_pos hDigit hNonzero)
      (digitValue_lt hLast), ofNat_digitValue hLast,
      ih (fun w hw => hDigits w (List.mem_append_left _ hw)) (.inl hNonzero)]

theorem length_ofNat_le {n k : Nat} (hk : 0 < k) (h : n < 10 ^ k) : (ofNat n).length ≤ k := by
  rw [ofNat, List.length_map]
  exact Nat.toDigits_length 10 n k hk h

end Text

end Enroll
