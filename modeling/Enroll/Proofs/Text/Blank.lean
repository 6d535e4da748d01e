import Enroll.Proofs.Text.Units
import Enroll.Text.Blank
import Mathlib.Data.List.Basic
import Mathlib.Data.List.TakeWhile

/-!
# Trimming

Blanks around a text that neither starts nor ends with one are just what is trimmed off it. No
blank is a surrogate, so they do not get between the halves of a pair either.
-/

namespace Enroll.Text

/-- Neither of its ends is blank. -/
structure Trimmed (t : Text) : Prop where
  first : ∀ u ∈ t.head?, isBlank u = false
  last : ∀ u ∈ t.getLast?, isBlank u = false

theorem dropWhile_blanks {before t : Text} (hBefore : ∀ u ∈ before, isBlank u)
    (hFirst : ∀ u ∈ t.head?, isBlank u = false) : (before ++ t).dropWhile isBlank = t := by
  rw [List.dropWhile_append_of_pos hBefore]
  cases t with
  | nil => rfl
  | cons u rest =>
    have hUnit : isBlank u = false := hFirst u rfl
    exact List.dropWhile_cons_of_neg (by simp [hUnit])

theorem trim_blanks {before t after : Text} (hNonempty : t ≠ []) (hTrimmed : t.Trimmed)
    (hBefore : ∀ u ∈ before, isBlank u) (hAfter : ∀ u ∈ after, isBlank u) :
    (before ++ t ++ after).trim = t := by
  have hLeft : trimLeft (before ++ t ++ after) = t ++ after := by
    rw [trimLeft, List.append_assoc]
    refine dropWhile_blanks hBefore ?_
    rw [List.head?_append_of_ne_nil t hNonempty]
    exact hTrimmed.first
  have hRight : (after.reverse ++ t.reverse).dropWhile isBlank = t.reverse := by
    refine dropWhile_blanks (fun u hu => hAfter u (List.mem_reverse.mp hu)) ?_
    rw [List.head?_reverse]
    exact hTrimmed.last
  rw [trim, hLeft, trimRight, List.reverse_append, hRight, List.reverse_reverse]

/-- What is trimmed off a text is blank. -/
theorem trim_spec (t : Text) :
    ∃ before after, t = before ++ t.trim ++ after ∧ (∀ u ∈ before, isBlank u) ∧
      ∀ u ∈ after, isBlank u := by
  have hLeft : t = t.takeWhile isBlank ++ trimLeft t := List.takeWhile_append_dropWhile.symm
  have hRight : trimLeft t = t.trim ++ ((trimLeft t).reverse.takeWhile isBlank).reverse := by
    rw [trim, trimRight, ← List.reverse_append, List.takeWhile_append_dropWhile,
      List.reverse_reverse]
  refine ⟨t.takeWhile isBlank, ((trimLeft t).reverse.takeWhile isBlank).reverse, ?_, ?_, ?_⟩
  · rw [List.append_assoc, ← hRight, ← hLeft]
  · exact fun u hu => List.mem_takeWhile_imp hu
  · exact fun u hu => List.mem_takeWhile_imp (List.mem_reverse.mp hu)

theorem trim_eq_nil_iff {t : Text} : t.trim = [] ↔ ∀ u ∈ t, isBlank u := by
  constructor
  · intro hNil
    obtain ⟨before, after, hSplit, hBefore, hAfter⟩ := trim_spec t
    rw [hNil, List.append_nil] at hSplit
    intro u hu
    rw [hSplit] at hu
    exact (List.mem_append.mp hu).elim (hBefore u) (hAfter u)
  · intro hBlank
    rw [trim, trimLeft, List.dropWhile_eq_nil_iff.mpr hBlank]
    rfl

/-- No visible character of ASCII is blank. -/
theorem isBlank_of_ascii {u : UInt16} (hLow : 0x21 ≤ u.toNat) (hHigh : u.toNat ≤ 0x7E) :
    isBlank u = false := by
  have hAll : ∀ n < 0x7F, 0x21 ≤ n → isBlank n.toUInt16 = false := by decide
  have hUnit := hAll u.toNat (Nat.lt_succ_of_le hHigh) hLow
  rwa [Nat.toUInt16_eq, UInt16.ofNat_toNat] at hUnit

theorem isSurrogate_of_isBlank {u : UInt16} (h : isBlank u) : isSurrogate u = false := by
  rw [isSurrogate_eq_false_iff]
  simp only [isBlank, Bool.or_eq_true, Bool.and_eq_true, decide_eq_true_eq, beq_iff_eq,
    UInt16.le_iff_toNat_le] at h
  rcases h with (((((((((h | rfl) | rfl) | rfl) | h) | rfl) | rfl) | rfl) | rfl) | rfl) | rfl
  · exact .inl (h.2.trans_lt (by decide))
  · decide
  · decide
  · decide
  · exact .inl (h.2.trans_lt (by decide))
  all_goals decide

theorem paired_of_blanks {t : Text} (h : ∀ u ∈ t, isBlank u) : t.Paired := by
  induction t with
  | nil => exact .nil
  | cons u rest ih =>
    obtain ⟨hUnit, hRest⟩ := List.forall_mem_cons.mp h
    exact .unit (isSurrogate_of_isBlank hUnit) (ih hRest)

end Enroll.Text
