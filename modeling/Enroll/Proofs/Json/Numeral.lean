import Enroll.Json.Token
import Enroll.Proofs.Number.Decimal
import Enroll.Proofs.Number.Digits
import Mathlib.Data.List.TakeWhile

/-!
# Numerals

`Numeral` is the grammar of a JSON number, with the number nearest to the decimal it spells. The
scanner's `numeral?` takes just these.
-/

namespace Enroll.Json

open Literal

structure Digits (ds : Text) : Prop where
  nonempty : ds ≠ []
  digit : ∀ u ∈ ds, Text.isDigit u

inductive Minus : Text → Bool → Prop where
  | absent : Minus [] false
  | minus : Minus [0x2D] true

/-- A zero, or digits that do not start with one. -/
inductive Whole : Text → Prop where
  | zero : Whole [0x30]
  | digits {u : UInt16} {ds : Text} (hFirst : Text.isDigit u) (hNonzero : u ≠ 0x30)
    (hDigits : ∀ v ∈ ds, Text.isDigit v) : Whole (u :: ds)

/-- What may follow the whole part, with its digits. -/
inductive Fraction : Text → Text → Prop where
  | absent : Fraction [] []
  | point {ds : Text} (hDigits : Digits ds) : Fraction (0x2E :: ds) ds

inductive Sign : Text → Bool → Prop where
  | absent : Sign [] false
  | plus : Sign [0x2B] false
  | minus : Sign [0x2D] true

def signed (negative : Bool) (n : Nat) : Int := if negative then -n else n

inductive Exponent : Text → Int → Prop where
  | absent : Exponent [] 0
  | power {mark : UInt16} {sign ds : Text} {negative : Bool} (hMark : mark = 0x65 ∨ mark = 0x45)
    (hSign : Sign sign negative) (hDigits : Digits ds) :
    Exponent (mark :: (sign ++ ds)) (signed negative (natOf ds))

inductive Numeral : Text → Number → Prop where
  | mk {minus whole fraction exponent ds : Text} {negative : Bool} {e : Int} {x : Number}
    (hMinus : Minus minus negative) (hWhole : Whole whole) (hFraction : Fraction fraction ds)
    (hExponent : Exponent exponent e)
    (hRounds : Number.Rounds negative
      ((natOf whole + natOf ds / 10 ^ ds.length) * 10 ^ e) x) :
    Numeral (minus ++ (whole ++ (fraction ++ exponent))) x

/-! ## Runs of digits -/

/-- The digits at the start of a text end here. -/
def EndsDigits (t : Text) : Prop := ∀ u ∈ t.head?, Text.isDigit u = false

theorem digits_append {ds t : Text} (hDigits : ∀ u ∈ ds, Text.isDigit u) (hEnd : EndsDigits t) :
    digits (ds ++ t) = (ds, t) := by
  have hTake : t.takeWhile Text.isDigit = [] ∧ t.dropWhile Text.isDigit = t := by
    cases t with
    | nil => exact ⟨rfl, rfl⟩
    | cons u rest =>
      have hOther : Text.isDigit u = false := hEnd u rfl
      simp [hOther]
  rw [digits, List.takeWhile_append_of_pos hDigits, List.dropWhile_append_of_pos hDigits, hTake.1,
    hTake.2, List.append_nil]

theorem digits_spec (t : Text) :
    (digits t).1 ++ (digits t).2 = t ∧ ∀ u ∈ (digits t).1, Text.isDigit u :=
  ⟨List.takeWhile_append_dropWhile, fun _ hu => List.mem_takeWhile_imp hu⟩

theorem Exponent.endsDigits {t : Text} {e : Int} (h : Exponent t e) : EndsDigits t := by
  cases h with
  | absent => simp [EndsDigits]
  | power hMark =>
    intro u hu
    obtain rfl := Option.mem_some.mp hu
    rcases hMark with rfl | rfl <;> rfl

theorem digits_all {ds : Text} (hDigits : ∀ u ∈ ds, Text.isDigit u) : digits ds = (ds, []) := by
  have hAll := digits_append (t := []) hDigits (by simp [EndsDigits])
  rwa [List.append_nil] at hAll

/-! ## The parts of a numeral -/

theorem sign_spec (t : Text) : ∃ s, t = s ++ (sign t).2 ∧ Sign s (sign t).1 := by
  cases t with
  | nil => exact ⟨[], rfl, .absent⟩
  | cons u rest =>
    simp only [sign, beq_iff_eq]
    split_ifs with hMinus hPlus
    · exact ⟨[u], rfl, hMinus ▸ .minus⟩
    · exact ⟨[u], rfl, hPlus ▸ .plus⟩
    · exact ⟨[], rfl, .absent⟩

theorem sign_append {s ds : Text} {negative : Bool} (hSign : Sign s negative) (hDigits : Digits ds) :
    sign (s ++ ds) = (negative, ds) := by
  cases hSign with
  | absent =>
    obtain ⟨u, rest, rfl⟩ := List.exists_cons_of_ne_nil hDigits.nonempty
    have hDigit := hDigits.digit u List.mem_cons_self
    have hMinus : u ≠ 0x2D := by
      rintro rfl
      exact absurd hDigit (by decide)
    have hPlus : u ≠ 0x2B := by
      rintro rfl
      exact absurd hDigit (by decide)
    simp [sign, hMinus, hPlus]
  | plus => rfl
  | minus => rfl

theorem exponent_spec (t : Text) :
    ∃ spelled, t = spelled ++ (exponent t).2 ∧ Exponent spelled (exponent t).1 := by
  cases t with
  | nil => exact ⟨[], rfl, .absent⟩
  | cons u rest =>
    by_cases hMark : u = 0x65 ∨ u = 0x45
    · have hTest : (u == 0x65 || u == 0x45) = true := by simpa using hMark
      obtain ⟨s, hRest, hSign⟩ := sign_spec rest
      obtain ⟨hSplit, hDigits⟩ := digits_spec (sign rest).2
      rcases hRun : digits (sign rest).2 with ⟨ds, after⟩
      rw [hRun] at hSplit hDigits
      cases ds with
      | nil =>
        have hNone : exponent (u :: rest) = (0, u :: rest) := by simp only [exponent, hTest, hRun, if_true]
        rw [hNone]
        exact ⟨[], rfl, .absent⟩
      | cons v ds =>
        have hSome : exponent (u :: rest) = (signed (sign rest).1 (natOf (v :: ds)), after) := by
          simp only [exponent, hTest, hRun, if_true]
          rfl
        rw [hSome]
        refine ⟨u :: (s ++ v :: ds), ?_, .power hMark hSign ⟨List.cons_ne_nil v ds, hDigits⟩⟩
        rw [List.cons_append, List.append_assoc, hSplit, ← hRest]
    · have hNone : exponent (u :: rest) = (0, u :: rest) := by
        rw [exponent, if_neg (by simpa using hMark)]
      rw [hNone]
      exact ⟨[], rfl, .absent⟩

theorem exponent_of {t : Text} {e : Int} (h : Exponent t e) : exponent t = (e, []) := by
  cases h with
  | absent => rfl
  | @power mark s ds negative hMark hSign hDigits =>
    obtain ⟨u, rest, rfl⟩ := List.exists_cons_of_ne_nil hDigits.nonempty
    rw [exponent, if_pos (by simpa using hMark), sign_append hSign hDigits]
    simp only [digits_all hDigits.digit]
    rfl

theorem fraction_spec (t : Text) :
    ∃ spelled, t = spelled ++ (fraction t).2 ∧ Fraction spelled (fraction t).1 := by
  cases t with
  | nil => exact ⟨[], rfl, .absent⟩
  | cons u rest =>
    by_cases hPoint : u = 0x2E
    · obtain rfl := hPoint
      obtain ⟨hSplit, hDigits⟩ := digits_spec rest
      rcases hRun : digits rest with ⟨ds, after⟩
      rw [hRun] at hSplit hDigits
      cases ds with
      | nil =>
        have hNone : fraction (0x2E :: rest) = ([], 0x2E :: rest) := by
          simp only [fraction, hRun, beq_self_eq_true, if_true]
        rw [hNone]
        exact ⟨[], rfl, .absent⟩
      | cons v ds =>
        have hSome : fraction (0x2E :: rest) = (v :: ds, after) := by
          simp only [fraction, hRun, beq_self_eq_true, if_true]
        rw [hSome]
        refine ⟨0x2E :: v :: ds, ?_, .point ⟨List.cons_ne_nil v ds, hDigits⟩⟩
        rw [List.cons_append, hSplit]
    · have hNone : fraction (u :: rest) = ([], u :: rest) := by
        rw [fraction, if_neg (by simpa using hPoint)]
      rw [hNone]
      exact ⟨[], rfl, .absent⟩

theorem fraction_append {spelled ds t : Text} {e : Int} (h : Fraction spelled ds)
    (hExponent : Exponent t e) : fraction (spelled ++ t) = (ds, t) := by
  cases h with
  | absent =>
    cases hExponent with
    | absent => rfl
    | power hMark =>
      rcases hMark with rfl | rfl <;> rfl
  | point hDigits =>
    obtain ⟨u, rest, rfl⟩ := List.exists_cons_of_ne_nil hDigits.nonempty
    simp only [List.cons_append, fraction, beq_self_eq_true, if_true]
    rw [← List.cons_append, digits_append hDigits.digit hExponent.endsDigits]

theorem Fraction.endsDigits {spelled ds t : Text} (h : Fraction spelled ds) (hEnd : EndsDigits t) :
    EndsDigits (spelled ++ t) := by
  cases h with
  | absent => exact hEnd
  | point =>
    intro u hu
    obtain rfl := Option.mem_some.mp hu
    rfl

/-! ## Numerals as a whole -/

inductive Unsigned : Text → Decimal → Prop where
  | mk {whole fraction exponent ds : Text} {e : Int} (hWhole : Whole whole)
    (hFraction : Fraction fraction ds) (hExponent : Exponent exponent e) :
    Unsigned (whole ++ (fraction ++ exponent)) (ofParts whole ds e)

theorem unsigned_of_strict? {t : Text} {d : Decimal} (h : strict? t = some (d, [])) :
    Unsigned t d := by
  have hParts : ∀ whole after : Text, Whole whole →
      (ofParts whole (fraction after).1 (exponent (fraction after).2).1,
        (exponent (fraction after).2).2) = (d, []) → Unsigned (whole ++ after) d := by
    intro whole after hWhole hEq
    obtain ⟨hDecimal, hEnd⟩ := Prod.mk.inj hEq
    obtain ⟨fs, hAfter, hFraction⟩ := fraction_spec after
    obtain ⟨es, hRest, hExponent⟩ := exponent_spec (fraction after).2
    rw [hEnd, List.append_nil] at hRest
    rw [hAfter, hRest, ← hDecimal]
    exact .mk hWhole hFraction (hRest ▸ hExponent)
  cases t with
  | nil => exact absurd h (by simp [strict?])
  | cons u rest =>
    simp only [strict?, beq_iff_eq] at h
    split_ifs at h with hZero hDigit
    · exact hParts [u] rest (hZero ▸ .zero) (Option.some.inj h)
    · obtain ⟨hSplit, hDigits⟩ := digits_spec (u :: rest)
      have hFirst : (digits (u :: rest)).1 = u :: rest.takeWhile Text.isDigit := by
        rw [digits, List.takeWhile_cons_of_pos hDigit]
      rw [← hSplit]
      refine hParts _ _ ?_ (Option.some.inj h)
      rw [hFirst] at hDigits ⊢
      exact .digits hDigit hZero fun v hv => hDigits v (List.mem_cons_of_mem u hv)
    · exact absurd h (by simp)

theorem strict?_of_unsigned {t : Text} {d : Decimal} (h : Unsigned t d) :
    strict? t = some (d, []) := by
  cases h with
  | @mk whole fs es ds e hWhole hFraction hExponent =>
    have hAfter := fraction_append hFraction hExponent
    have hEnd := exponent_of hExponent
    cases hWhole with
    | zero => simp [strict?, hAfter, hEnd]
    | @digits u rest hFirst hNonzero hDigits =>
      have hRun : digits (u :: (rest ++ (fs ++ es))) = (u :: rest, fs ++ es) := by
        rw [← List.cons_append]
        refine digits_append (fun v hv => ?_) (hFraction.endsDigits hExponent.endsDigits)
        rcases List.mem_cons.mp hv with rfl | hv
        · exact hFirst
        · exact hDigits v hv
      simp [strict?, hNonzero, hFirst, hRun, hAfter, hEnd]

theorem value_ofParts (whole ds : Text) (e : Int) :
    ((ofParts whole ds e).digits : ℚ) * 10 ^ (ofParts whole ds e).scale =
      (natOf whole + natOf ds / 10 ^ ds.length) * 10 ^ e := by
  have hTen : (10 : ℚ) ≠ 0 := by norm_num
  rw [ofParts, natOf_append, zpow_sub₀ hTen, zpow_natCast]
  push_cast
  field_simp

theorem numeral?_append {minus rest : Text} {negative : Bool} {x : Number}
    (hMinus : Minus minus negative) (hHead : minus = [] → rest.head? ≠ some 0x2D) :
    numeral? (minus ++ rest) = some x ↔
      ∃ d, strict? rest = some (d, []) ∧ Number.ofDecimal negative d = x := by
  have hRest : numeral? (minus ++ rest) = (strict? rest).bind fun read =>
      if read.2 = [] then some (Number.ofDecimal negative read.1) else none := by
    cases hMinus with
    | minus =>
      rcases hRead : strict? rest with _ | ⟨d, _ | ⟨u, tail⟩⟩ <;> simp [numeral?, hRead]
    | absent =>
      cases rest with
      | nil => rfl
      | cons u tail =>
        have hOther : u ≠ 0x2D := fun hEq => hHead rfl (congrArg some hEq)
        rcases hRead : strict? (u :: tail) with _ | ⟨d, _ | ⟨u, tail⟩⟩ <;>
          simp [numeral?, hOther, hRead]
  rw [hRest]
  rcases strict? rest with _ | ⟨d, _ | ⟨u, tail⟩⟩ <;> simp

theorem minus_spec (w : Text) :
    ∃ minus rest negative, w = minus ++ rest ∧ Minus minus negative ∧
      (minus = [] → rest.head? ≠ some 0x2D) := by
  by_cases hHead : w.head? = some 0x2D
  · obtain ⟨rest, rfl⟩ := List.head?_eq_some_iff.mp hHead
    exact ⟨[0x2D], rest, true, rfl, .minus, by simp⟩
  · exact ⟨[], w, false, rfl, .absent, fun _ => hHead⟩

theorem Whole.head_ne_minus {whole : Text} (h : Whole whole) (t : Text) :
    (whole ++ t).head? ≠ some 0x2D := by
  cases h with
  | zero => simp
  | digits hFirst =>
    rintro hEq
    obtain rfl := Option.some.inj hEq
    exact absurd hFirst (by decide)

theorem numeral?_eq_some_iff {w : Text} {x : Number} : numeral? w = some x ↔ Numeral w x := by
  constructor
  · intro h
    obtain ⟨minus, rest, negative, rfl, hMinus, hHead⟩ := minus_spec w
    obtain ⟨d, hStrict, rfl⟩ := (numeral?_append hMinus hHead).mp h
    have hRounds := Number.rounds_ofDecimal negative d
    cases unsigned_of_strict? hStrict with
    | mk hWhole hFraction hExponent =>
      rw [value_ofParts] at hRounds
      exact .mk hMinus hWhole hFraction hExponent hRounds
  · rintro ⟨hMinus, hWhole, hFraction, hExponent, hRounds⟩
    rw [← value_ofParts] at hRounds
    refine (numeral?_append hMinus fun _ => hWhole.head_ne_minus _).mpr
      ⟨_, strict?_of_unsigned (.mk hWhole hFraction hExponent), ?_⟩
    exact (Number.rounds_ofDecimal _ _).unique hRounds

end Enroll.Json
