import Enroll.Proofs.Text.Units
import Enroll.Text.Utf8
import Mathlib.Data.List.Basic

/-!
# Reading and writing UTF-8

Whatever bytes there are, `decode` reads them stretch by stretch (`Reads`): the bytes of a code
point as that code point, and each longest stretch that begins one and cannot go on as one U+FFFD.
So a paired text is read back from its bytes, and well-formed bytes are written again as they were.
-/

namespace Enroll.Utf8

open Text (IsScalar ofPoints replacement)

/-! ## Well-formed bytes -/

def IsTail (b : UInt8) : Prop := 0x80 ≤ b.toNat ∧ b.toNat ≤ 0xBF

/-- The bytes of one code point: no longer than it takes, no surrogate, nothing above U+10FFFF. -/
inductive Character : List UInt8 → Prop where
  | one {a : UInt8} (ha : a.toNat < 0x80) : Character [a]
  | two {a b : UInt8} (ha : 0xC2 ≤ a.toNat ∧ a.toNat ≤ 0xDF) (hb : IsTail b) : Character [a, b]
  | three {a b c : UInt8} (ha : 0xE0 ≤ a.toNat ∧ a.toNat ≤ 0xEF) (hb : IsTail b) (hc : IsTail c)
      (hShort : a.toNat = 0xE0 → 0xA0 ≤ b.toNat) (hSurrogate : a.toNat = 0xED → b.toNat ≤ 0x9F) :
    Character [a, b, c]
  | four {a b c d : UInt8} (ha : 0xF0 ≤ a.toNat ∧ a.toNat ≤ 0xF4) (hb : IsTail b) (hc : IsTail c)
      (hd : IsTail d) (hShort : a.toNat = 0xF0 → 0x90 ≤ b.toNat)
      (hGreat : a.toNat = 0xF4 → b.toNat ≤ 0x8F) : Character [a, b, c, d]

inductive WellFormed : List UInt8 → Prop where
  | nil : WellFormed []
  | cons {bytes rest : List UInt8} (hFirst : Character bytes) (hRest : WellFormed rest) :
    WellFormed (bytes ++ rest)

/-! ## What bytes read as -/

/-- Bytes that are no code point: one, or several that begin one, and the next does not go on. -/
structure Malformed (bad rest : List UInt8) : Prop where
  nonempty : bad ≠ []
  begins : bad.length = 1 ∨ ∃ n, IsScalar n ∧ bad <+: encodePoint n
  incomplete : ∀ n, IsScalar n → encodePoint n ≠ bad
  stuck : ∀ b ∈ rest.head?, ∀ n, IsScalar n → ¬ (bad ++ [b]) <+: encodePoint n

inductive Reads : List UInt8 → List Nat → Prop where
  | nil : Reads [] []
  | point {n : Nat} {rest : List UInt8} {points : List Nat} (hPoint : IsScalar n)
      (hRest : Reads rest points) : Reads (encodePoint n ++ rest) (n :: points)
  | replaced {bad rest : List UInt8} {points : List Nat} (hBad : Malformed bad rest)
      (hRest : Reads rest points) : Reads (bad ++ rest) (replacement :: points)

/-! ## The code points that are brought out -/

def points (s : Option Sequence) : List UInt8 → List Nat
  | [] => finish s
  | b :: rest => (next s b).2 ++ points (next s b).1 rest

theorem unitsOnto_eq (out : Text) (ns : List Nat) :
    unitsOnto out ns = (ofPoints ns).reverse ++ out := by
  induction ns generalizing out with
  | nil => rfl
  | cons n rest ih =>
    have hRest := ih ((Text.ofCodePoint n).reverse ++ out)
    simpa [unitsOnto, ofPoints] using hRest

theorem decodeOnto_eq (out : Text) (s : Option Sequence) (bytes : List UInt8) :
    decodeOnto out s bytes = out.reverse ++ ofPoints (points s bytes) := by
  induction bytes generalizing out s with
  | nil => simp [decodeOnto, points, unitsOnto_eq]
  | cons b rest ih =>
    rw [decodeOnto, ih, unitsOnto_eq, points]
    simp [ofPoints]

theorem decode_eq (bytes : List UInt8) : decode bytes = ofPoints (points none bytes) :=
  decodeOnto_eq [] none bytes

/-! ## A sequence under way -/

def valueOnto (value : Nat) (bytes : List UInt8) : Nat :=
  bytes.foldl (fun v b => v * 0x40 + (b.toNat - 0x80)) value

theorem valueOnto_cons (value : Nat) (b : UInt8) (rest : List UInt8) :
    valueOnto value (b :: rest) = valueOnto (value * 0x40 + (b.toNat - 0x80)) rest :=
  List.foldl_cons

/-- The bytes that a sequence still waits for, and the code point that it comes to with them. -/
structure Sequence.CompletedBy (s : Sequence) (bytes : List UInt8) (n : Nat) : Prop where
  length : bytes.length = s.owed
  first : ∀ b ∈ bytes.head?, s.low.toNat ≤ b.toNat ∧ b.toNat ≤ s.high.toNat
  others : ∀ b ∈ bytes.tail, IsTail b
  value : n = valueOnto s.value bytes

/-- A sequence after its first bytes: what completes it is what makes them a code point. -/
def Sequence.Follows (s : Sequence) (gone : List UInt8) : Prop :=
  0 < s.owed ∧ s.low.toNat ≤ s.high.toNat ∧
    ∀ bytes n, (IsScalar n ∧ encodePoint n = gone ++ bytes) ↔ s.CompletedBy bytes n

theorem toNat_toUInt8 {n : Nat} (h : n < 0x100) : n.toUInt8.toNat = n := by
  rw [Nat.toUInt8_eq, UInt8.toNat_ofNat']
  omega

theorem toUInt8_eq_iff {n : Nat} (h : n < 0x100) {b : UInt8} : n.toUInt8 = b ↔ n = b.toNat := by
  rw [← UInt8.toNat_inj, toNat_toUInt8 h]

theorem encodePoint_eq_one {n : Nat} (h : n < 0x80) {bytes : List UInt8} :
    encodePoint n = bytes ↔ ∃ a, bytes = [a] ∧ a.toNat = n := by
  rw [encodePoint, if_pos h]
  constructor
  · rintro rfl
    exact ⟨_, rfl, toNat_toUInt8 (by omega)⟩
  · rintro ⟨a, rfl, hEq⟩
    rw [List.cons.injEq, toUInt8_eq_iff (by omega)]
    exact ⟨hEq.symm, rfl⟩

theorem encodePoint_eq_two {n : Nat} (h : 0x80 ≤ n ∧ n < 0x800) {bytes : List UInt8} :
    encodePoint n = bytes ↔ ∃ a b, bytes = [a, b] ∧ a.toNat = 0xC0 + n / 0x40 ∧
      b.toNat = 0x80 + n % 0x40 := by
  rw [encodePoint, if_neg (by omega), if_pos h.2]
  constructor
  · rintro rfl
    exact ⟨_, _, rfl, toNat_toUInt8 (by omega), toNat_toUInt8 (by omega)⟩
  · rintro ⟨a, b, rfl, ha, hb⟩
    simp only [List.cons.injEq, and_true]
    rw [toUInt8_eq_iff (by omega), toUInt8_eq_iff (by omega)]
    omega

theorem encodePoint_eq_three {n : Nat} (h : 0x800 ≤ n ∧ n < 0x10000) {bytes : List UInt8} :
    encodePoint n = bytes ↔ ∃ a b c, bytes = [a, b, c] ∧ a.toNat = 0xE0 + n / 0x1000 ∧
      b.toNat = 0x80 + n / 0x40 % 0x40 ∧ c.toNat = 0x80 + n % 0x40 := by
  rw [encodePoint, if_neg (by omega), if_neg (by omega), if_pos h.2]
  constructor
  · rintro rfl
    exact ⟨_, _, _, rfl, toNat_toUInt8 (by omega), toNat_toUInt8 (by omega),
      toNat_toUInt8 (by omega)⟩
  · rintro ⟨a, b, c, rfl, ha, hb, hc⟩
    simp only [List.cons.injEq, and_true]
    rw [toUInt8_eq_iff (by omega), toUInt8_eq_iff (by omega), toUInt8_eq_iff (by omega)]
    omega

theorem encodePoint_eq_four {n : Nat} (h : 0x10000 ≤ n ∧ n < 0x110000) {bytes : List UInt8} :
    encodePoint n = bytes ↔ ∃ a b c d, bytes = [a, b, c, d] ∧ a.toNat = 0xF0 + n / 0x40000 ∧
      b.toNat = 0x80 + n / 0x1000 % 0x40 ∧ c.toNat = 0x80 + n / 0x40 % 0x40 ∧
      d.toNat = 0x80 + n % 0x40 := by
  rw [encodePoint, if_neg (by omega), if_neg (by omega), if_neg (by omega)]
  constructor
  · rintro rfl
    exact ⟨_, _, _, _, rfl, toNat_toUInt8 (by omega), toNat_toUInt8 (by omega),
      toNat_toUInt8 (by omega), toNat_toUInt8 (by omega)⟩
  · rintro ⟨a, b, c, d, rfl, ha, hb, hc, hd⟩
    simp only [List.cons.injEq, and_true]
    rw [toUInt8_eq_iff (by omega), toUInt8_eq_iff (by omega), toUInt8_eq_iff (by omega),
      toUInt8_eq_iff (by omega)]
    omega

/-- The first byte of a code point tells how great it is. -/
theorem first_of_encodePoint {n : Nat} (h : IsScalar n) {b : UInt8} {bytes : List UInt8}
    (hBytes : encodePoint n = b :: bytes) :
    n < 0x80 ∧ b.toNat < 0x80 ∨
    (0x80 ≤ n ∧ n < 0x800) ∧ 0xC2 ≤ b.toNat ∧ b.toNat < 0xE0 ∨
    (0x800 ≤ n ∧ n < 0x10000) ∧ 0xE0 ≤ b.toNat ∧ b.toNat < 0xF0 ∨
    (0x10000 ≤ n ∧ n < 0x110000) ∧ 0xF0 ≤ b.toNat ∧ b.toNat < 0xF5 := by
  have hLess : n < 0x110000 := by
    unfold IsScalar at h
    omega
  by_cases hOne : n < 0x80
  · obtain ⟨a, hEq, ha⟩ := (encodePoint_eq_one hOne).mp hBytes
    obtain rfl := List.head_eq_of_cons_eq hEq
    omega
  · by_cases hTwo : n < 0x800
    · obtain ⟨a, c, hEq, ha, -⟩ := (encodePoint_eq_two (by omega)).mp hBytes
      obtain rfl := List.head_eq_of_cons_eq hEq
      omega
    · by_cases hThree : n < 0x10000
      · obtain ⟨a, c, d, hEq, ha, -⟩ := (encodePoint_eq_three (by omega)).mp hBytes
        obtain rfl := List.head_eq_of_cons_eq hEq
        omega
      · obtain ⟨a, c, d, e, hEq, ha, -⟩ := (encodePoint_eq_four (by omega)).mp hBytes
        obtain rfl := List.head_eq_of_cons_eq hEq
        omega

/-! ## The first byte -/

theorem follows_two {b : UInt8} (hb : 0xC2 ≤ b.toNat ∧ b.toNat < 0xE0) :
    Sequence.Follows ⟨1, b.toNat - 0xC0, 0x80, 0xBF⟩ [b] := by
  refine ⟨Nat.one_pos, ?_, fun bytes n => ⟨?_, ?_⟩⟩
  · simp
  · rintro ⟨hScalar, hEncode⟩
    have hFirst := first_of_encodePoint hScalar hEncode
    obtain ⟨a, c, hEq, ha, hc⟩ := (encodePoint_eq_two (by omega)).mp hEncode
    simp only [List.singleton_append, List.cons.injEq] at hEq
    obtain ⟨rfl, rfl⟩ := hEq
    refine ⟨rfl, ?_, ?_, ?_⟩
    · simp
      omega
    · simp
    · simp [valueOnto]
      omega
  · rintro ⟨hLength, hFirst, -, rfl⟩
    obtain ⟨c, rfl⟩ := List.length_eq_one_iff.mp hLength
    have hc : 0x80 ≤ c.toNat ∧ c.toNat ≤ 0xBF := by simpa using hFirst
    have hValue : valueOnto (b.toNat - 0xC0) [c] =
        (b.toNat - 0xC0) * 0x40 + (c.toNat - 0x80) := rfl
    rw [hValue]
    refine ⟨?_, (encodePoint_eq_two (by omega)).mpr ⟨b, c, rfl, by omega, by omega⟩⟩
    unfold IsScalar
    omega

theorem toNat_bound (a b x y : UInt8) :
    (if b == a then x else y).toNat = if b.toNat = a.toNat then x.toNat else y.toNat := by
  simp only [beq_iff_eq, ← UInt8.toNat_inj]
  split <;> rfl

theorem follows_three {b : UInt8} (hb : 0xE0 ≤ b.toNat ∧ b.toNat < 0xF0) :
    Sequence.Follows ⟨2, b.toNat - 0xE0, if b == 0xE0 then 0xA0 else 0x80,
      if b == 0xED then 0x9F else 0xBF⟩ [b] := by
  have hLow : (if b == 0xE0 then 0xA0 else 0x80 : UInt8).toNat =
      if b.toNat = 0xE0 then 0xA0 else 0x80 := toNat_bound 0xE0 b 0xA0 0x80
  have hHigh : (if b == 0xED then 0x9F else 0xBF : UInt8).toNat =
      if b.toNat = 0xED then 0x9F else 0xBF := toNat_bound 0xED b 0x9F 0xBF
  refine ⟨Nat.two_pos, ?_, fun bytes n => ⟨?_, ?_⟩⟩
  · rw [hLow, hHigh]
    split <;> split <;> omega
  · rintro ⟨hScalar, hEncode⟩
    have hFirst := first_of_encodePoint hScalar hEncode
    obtain ⟨a, c, d, hEq, ha, hc, hd⟩ := (encodePoint_eq_three (by omega)).mp hEncode
    simp only [List.singleton_append, List.cons.injEq] at hEq
    obtain ⟨rfl, rfl⟩ := hEq
    unfold IsScalar at hScalar
    refine ⟨rfl, ?_, ?_, ?_⟩
    · simp only [List.head?_cons, Option.mem_some_iff, forall_eq', hLow, hHigh]
      split <;> split <;> omega
    · simp [IsTail]
      omega
    · simp [valueOnto]
      omega
  · rintro ⟨hLength, hFirst, hOthers, rfl⟩
    obtain ⟨c, d, rfl⟩ := List.length_eq_two.mp hLength
    simp only [List.head?_cons, Option.mem_some_iff, forall_eq', hLow, hHigh] at hFirst
    have hd : 0x80 ≤ d.toNat ∧ d.toNat ≤ 0xBF := by simpa [IsTail] using hOthers
    have hValue : valueOnto (b.toNat - 0xE0) [c, d] =
        ((b.toNat - 0xE0) * 0x40 + (c.toNat - 0x80)) * 0x40 + (d.toNat - 0x80) := rfl
    have hc : 0x80 ≤ c.toNat ∧ c.toNat ≤ 0xBF ∧ (b.toNat = 0xE0 → 0xA0 ≤ c.toNat) ∧
        (b.toNat = 0xED → c.toNat ≤ 0x9F) := by
      split at hFirst <;> split at hFirst <;> omega
    rw [hValue]
    refine ⟨?_, (encodePoint_eq_three (by omega)).mpr ⟨b, c, d, rfl, by omega, by omega, by omega⟩⟩
    unfold IsScalar
    omega

theorem follows_four {b : UInt8} (hb : 0xF0 ≤ b.toNat ∧ b.toNat < 0xF5) :
    Sequence.Follows ⟨3, b.toNat - 0xF0, if b == 0xF0 then 0x90 else 0x80,
      if b == 0xF4 then 0x8F else 0xBF⟩ [b] := by
  have hLow : (if b == 0xF0 then 0x90 else 0x80 : UInt8).toNat =
      if b.toNat = 0xF0 then 0x90 else 0x80 := toNat_bound 0xF0 b 0x90 0x80
  have hHigh : (if b == 0xF4 then 0x8F else 0xBF : UInt8).toNat =
      if b.toNat = 0xF4 then 0x8F else 0xBF := toNat_bound 0xF4 b 0x8F 0xBF
  refine ⟨Nat.zero_lt_succ 2, ?_, fun bytes n => ⟨?_, ?_⟩⟩
  · rw [hLow, hHigh]
    split <;> split <;> omega
  · rintro ⟨hScalar, hEncode⟩
    have hFirst := first_of_encodePoint hScalar hEncode
    obtain ⟨a, c, d, e, hEq, ha, hc, hd, he⟩ := (encodePoint_eq_four (by omega)).mp hEncode
    simp only [List.singleton_append, List.cons.injEq] at hEq
    obtain ⟨rfl, rfl⟩ := hEq
    refine ⟨rfl, ?_, ?_, ?_⟩
    · simp only [List.head?_cons, Option.mem_some_iff, forall_eq', hLow, hHigh]
      split <;> split <;> omega
    · simp [IsTail]
      omega
    · simp [valueOnto]
      omega
  · rintro ⟨hLength, hFirst, hOthers, rfl⟩
    obtain ⟨c, d, e, rfl⟩ := List.length_eq_three.mp hLength
    simp only [List.head?_cons, Option.mem_some_iff, forall_eq', hLow, hHigh] at hFirst
    have hTails : (0x80 ≤ d.toNat ∧ d.toNat ≤ 0xBF) ∧ 0x80 ≤ e.toNat ∧ e.toNat ≤ 0xBF := by
      simpa [IsTail] using hOthers
    have hValue : valueOnto (b.toNat - 0xF0) [c, d, e] =
        (((b.toNat - 0xF0) * 0x40 + (c.toNat - 0x80)) * 0x40 + (d.toNat - 0x80)) * 0x40 +
          (e.toNat - 0x80) := rfl
    have hc : 0x80 ≤ c.toNat ∧ c.toNat ≤ 0xBF ∧ (b.toNat = 0xF0 → 0x90 ≤ c.toNat) ∧
        (b.toNat = 0xF4 → c.toNat ≤ 0x8F) := by
      split at hFirst <;> split at hFirst <;> omega
    rw [hValue]
    refine ⟨?_, (encodePoint_eq_four (by omega)).mpr
      ⟨b, c, d, e, rfl, by omega, by omega, by omega, by omega⟩⟩
    unfold IsScalar
    omega

/-- What a byte is where a code point may begin: all of one, the first of one, or neither. -/
theorem begin_cases (b : UInt8) :
    begin b = (none, [b.toNat]) ∧ b.toNat < 0x80 ∨
    (∃ s, begin b = (some s, []) ∧ s.Follows [b]) ∨
    begin b = (none, [replacement]) ∧ ∀ n, IsScalar n → ∀ bytes, encodePoint n ≠ b :: bytes := by
  have hNone : ¬ b.toNat < 0x80 → b.toNat < 0xC2 ∨ ¬ b.toNat < 0xF5 →
      ∀ n, IsScalar n → ∀ bytes, encodePoint n ≠ b :: bytes := by
    intro _ _ n hScalar bytes hEncode
    have hFirst := first_of_encodePoint hScalar hEncode
    omega
  unfold begin
  simp only [UInt8.lt_iff_toNat_lt]
  split
  · exact .inl ⟨rfl, by assumption⟩
  · split
    · exact .inr (.inr ⟨rfl, hNone (by assumption) (.inl (by assumption))⟩)
    · split
      · exact .inr (.inl ⟨_, rfl, follows_two (by simp_all)⟩)
      · split
        · exact .inr (.inl ⟨_, rfl, follows_three (by simp_all)⟩)
        · split
          · exact .inr (.inl ⟨_, rfl, follows_four (by simp_all)⟩)
          · exact .inr (.inr ⟨rfl, hNone (by assumption) (.inr (by assumption))⟩)

/-! ## One more byte -/

/-- A byte in range takes a sequence on, and what is owed behind it may be any tail. -/
theorem Sequence.Follows.concat {s : Sequence} {gone : List UInt8} (h : s.Follows gone) {b : UInt8}
    (hRange : s.low.toNat ≤ b.toNat ∧ b.toNat ≤ s.high.toNat) (hMore : 1 < s.owed) :
    Sequence.Follows ⟨s.owed - 1, s.value * 0x40 + (b.toNat - 0x80), 0x80, 0xBF⟩ (gone ++ [b]) := by
  obtain ⟨-, -, hCompletes⟩ := h
  refine ⟨Nat.sub_pos_of_lt hMore, by simp, fun bytes n => ?_⟩
  rw [List.append_assoc, List.singleton_append, hCompletes]
  constructor
  · rintro ⟨hLength, -, hOthers, hValue⟩
    refine ⟨?_, ?_, ?_, hValue.trans (valueOnto_cons ..)⟩
    · change bytes.length = s.owed - 1
      simp only [List.length_cons] at hLength
      omega
    · intro c hc
      exact hOthers c (List.mem_of_mem_head? hc)
    · intro c hc
      exact hOthers c (List.mem_of_mem_tail hc)
  · rintro ⟨hLength, hFirst, hOthers, hValue⟩
    refine ⟨?_, by simpa using hRange, ?_, hValue.trans (valueOnto_cons ..).symm⟩
    · change bytes.length = s.owed - 1 at hLength
      simp only [List.length_cons]
      omega
    · intro c hc
      cases bytes with
      | nil => exact absurd hc List.not_mem_nil
      | cons d rest =>
        rcases List.mem_cons.mp hc with rfl | hc
        · simpa [IsTail] using hFirst
        · exact hOthers c hc

/-- The byte is the last of a sequence, or goes on with it, or has nothing to do with it. -/
theorem next_cases {s : Sequence} {gone : List UInt8} (h : s.Follows gone) (b : UInt8) :
    (∃ n, next (some s) b = (none, [n]) ∧ IsScalar n ∧ encodePoint n = gone ++ [b]) ∨
    (∃ s', next (some s) b = (some s', []) ∧ s'.Follows (gone ++ [b])) ∨
    next (some s) b = ((begin b).1, replacement :: (begin b).2) ∧
      ∀ n, IsScalar n → ∀ bytes, encodePoint n ≠ gone ++ b :: bytes := by
  have hFollows := h
  obtain ⟨hOwed, -, hCompletes⟩ := h
  by_cases hRange : s.low.toNat ≤ b.toNat ∧ b.toNat ≤ s.high.toNat
  · have hIn : (s.low ≤ b && b ≤ s.high) = true := by simpa [UInt8.le_iff_toNat_le] using hRange
    by_cases hLast : s.owed ≤ 1
    · have hNext : next (some s) b = (none, [s.value * 0x40 + (b.toNat - 0x80)]) := by
        simp only [next, hIn, if_true, if_pos hLast]
      have hCompleted : s.CompletedBy [b] (valueOnto s.value [b]) := by
        refine ⟨?_, by simpa using hRange, by simp, rfl⟩
        rw [List.length_singleton]
        omega
      exact .inl ⟨valueOnto s.value [b], hNext, (hCompletes [b] _).mpr hCompleted⟩
    · refine .inr (.inl ⟨_, ?_, hFollows.concat hRange (by omega)⟩)
      simp only [next, hIn, if_true, if_neg hLast]
  · have hOut : (s.low ≤ b && b ≤ s.high) = false := by
      simpa [UInt8.le_iff_toNat_le] using hRange
    refine .inr (.inr ⟨by simp [next, hOut], fun n hScalar bytes hEncode => hRange ?_⟩)
    exact ((hCompletes _ n).mp ⟨hScalar, hEncode⟩).first b rfl

/-- Some bytes complete a sequence that is under way. -/
theorem Sequence.Follows.begins {s : Sequence} {gone : List UInt8} (h : s.Follows gone) :
    ∃ n, IsScalar n ∧ gone <+: encodePoint n := by
  obtain ⟨hOwed, hRange, hCompletes⟩ := h
  let bytes : List UInt8 := s.low :: List.replicate (s.owed - 1) 0x80
  have hCompleted : s.CompletedBy bytes (valueOnto s.value bytes) := by
    refine ⟨?_, ?_, ?_, rfl⟩
    · simp [bytes]
      omega
    · simpa [bytes] using hRange
    · intro b hb
      obtain rfl := List.eq_of_mem_replicate hb
      simp [IsTail]
  obtain ⟨hScalar, hEncode⟩ := (hCompletes _ _).mpr hCompleted
  exact ⟨_, hScalar, bytes, hEncode.symm⟩

theorem Sequence.Follows.incomplete {s : Sequence} {gone : List UInt8} (h : s.Follows gone) {n : Nat}
    (hScalar : IsScalar n) : encodePoint n ≠ gone := by
  intro hEncode
  obtain ⟨hOwed, -, hCompletes⟩ := h
  have hNothing := ((hCompletes [] n).mp ⟨hScalar, by simpa using hEncode⟩).length
  simp at hNothing
  omega

/-! ## The whole -/

theorem not_prefix_of_ne {bad : List UInt8} {b : UInt8} {n : Nat}
    (h : ∀ bytes, encodePoint n ≠ bad ++ b :: bytes) : ¬ (bad ++ [b]) <+: encodePoint n := by
  rintro ⟨bytes, hEncode⟩
  exact h bytes (by simp [← hEncode])

/-- What is brought out of bytes that come after a sequence under way. -/
def ReadsOn (bytes : List UInt8) : Prop :=
  ∀ s gone, s.Follows gone → gone ≠ [] → Reads (gone ++ bytes) (points (some s) bytes)

theorem reads_begin {rest : List UInt8} (hNone : Reads rest (points none rest))
    (hSome : ReadsOn rest) (b : UInt8) : Reads (b :: rest) (points none (b :: rest)) := by
  rw [points, next]
  rcases begin_cases b with ⟨hEq, hOne⟩ | ⟨s, hEq, hFollows⟩ | ⟨hEq, hStray⟩
  · have hEncode : encodePoint b.toNat = [b] := (encodePoint_eq_one hOne).mpr ⟨b, rfl, rfl⟩
    have hPoint := Reads.point (n := b.toNat) (by unfold IsScalar; omega) hNone
    rw [hEncode] at hPoint
    rw [hEq]
    exact hPoint
  · rw [hEq]
    exact hSome s [b] hFollows (List.cons_ne_nil b [])
  · have hBad : Malformed [b] rest := ⟨List.cons_ne_nil b [], .inl rfl,
      fun n hScalar => hStray n hScalar [],
      fun c _ n hScalar => not_prefix_of_ne fun bytes => hStray n hScalar _⟩
    rw [hEq]
    exact .replaced hBad hNone

theorem reads_next {rest : List UInt8} (hNone : Reads rest (points none rest))
    (hSome : ReadsOn rest) (b : UInt8) : ReadsOn (b :: rest) := by
  intro s gone hFollows hGone
  rcases next_cases hFollows b with ⟨n, hEq, hScalar, hEncode⟩ | ⟨s', hEq, hFollows'⟩ |
    ⟨hEq, hStuck⟩
  · have hPoint := Reads.point hScalar hNone
    rw [hEncode, List.append_assoc] at hPoint
    rw [points, hEq]
    exact hPoint
  · have hRest := hSome s' (gone ++ [b]) hFollows' (by simp)
    rw [List.append_assoc] at hRest
    rw [points, hEq]
    exact hRest
  · -- the sequence is given up before this byte, which then begins anew
    rw [points, hEq]
    refine .replaced ⟨hGone, .inr hFollows.begins, fun n hScalar => hFollows.incomplete hScalar,
      ?_⟩ (reads_begin hNone hSome b)
    intro c hc n hScalar
    obtain rfl := Option.some.inj hc
    exact not_prefix_of_ne (hStuck n hScalar)

theorem reads_points (bytes : List UInt8) :
    Reads bytes (points none bytes) ∧ ReadsOn bytes := by
  induction bytes with
  | nil =>
    refine ⟨.nil, fun s gone hFollows hGone => ?_⟩
    exact .replaced ⟨hGone, .inr hFollows.begins, fun n hScalar => hFollows.incomplete hScalar,
      by simp⟩ .nil
  | cons b rest ih =>
    obtain ⟨hNone, hSome⟩ := ih
    exact ⟨reads_begin hNone hSome b, reads_next hNone hSome b⟩

theorem points_append_of_follows {s : Sequence} {gone : List UInt8} (h : s.Follows gone) {n : Nat}
    (hScalar : IsScalar n) {bytes : List UInt8} (hEncode : encodePoint n = gone ++ bytes)
    (rest : List UInt8) : points (some s) (bytes ++ rest) = n :: points none rest := by
  induction bytes generalizing s gone with
  | nil => exact absurd (by simpa using hEncode) (h.incomplete hScalar)
  | cons b others ih =>
    rw [List.cons_append, points]
    rcases next_cases h b with ⟨m, hEq, hOther, hOtherEncode⟩ | ⟨s', hEq, hFollows⟩ | ⟨hEq, hStuck⟩
    · -- all the bytes that are owed make one code point, so nothing is left of either
      have hOne := (h.2.2 [b] m).mp ⟨hOther, hOtherEncode⟩
      have hAll := (h.2.2 (b :: others) n).mp ⟨hScalar, hEncode⟩
      have hLength := hOne.length.trans hAll.length.symm
      obtain rfl : others = [] := by simpa using hLength
      rw [hEq, hOne.value, hAll.value]
      rfl
    · rw [hEq]
      exact ih hFollows (by simpa using hEncode)
    · exact absurd hEncode (hStuck n hScalar others)

theorem points_encodePoint {n : Nat} (hScalar : IsScalar n) (rest : List UInt8) :
    points none (encodePoint n ++ rest) = n :: points none rest := by
  cases hEncode : encodePoint n with
  | nil =>
    unfold encodePoint at hEncode
    split_ifs at hEncode
  | cons b bytes =>
    rw [List.cons_append, points, next]
    rcases begin_cases b with ⟨hEq, hOne⟩ | ⟨s, hEq, hFollows⟩ | ⟨hEq, hStray⟩
    · have hFirst := first_of_encodePoint hScalar hEncode
      obtain ⟨a, hSingle, rfl⟩ := (encodePoint_eq_one (by omega)).mp hEncode
      obtain ⟨rfl, rfl⟩ := List.cons.inj hSingle
      rw [hEq]
      rfl
    · rw [hEq]
      exact points_append_of_follows hFollows hScalar hEncode rest
    · exact absurd hEncode (hStray n hScalar bytes)

/-! ## There is one way to read bytes -/

theorem encodePoint_ne_nil {n : Nat} : encodePoint n ≠ [] := by
  unfold encodePoint
  split_ifs <;> exact List.cons_ne_nil _ _

theorem eq_of_encodePoint_prefix {n m : Nat} (hn : IsScalar n) (hm : IsScalar m)
    (h : encodePoint n <+: encodePoint m) : n = m := by
  obtain ⟨rest, hEq⟩ := h
  have hFirst := points_encodePoint hn rest
  have hSecond := points_encodePoint hm []
  rw [List.append_nil, ← hEq, hFirst] at hSecond
  exact (List.cons.inj hSecond).1

theorem Malformed.ne_encodePoint {bad rest rest' : List UInt8} {n : Nat} (h : Malformed bad rest)
    (hn : IsScalar n) : bad ++ rest ≠ encodePoint n ++ rest' := by
  intro hEq
  rcases List.append_eq_append_iff.mp hEq with ⟨more, hPoint, hRest⟩ | ⟨more, hBad, -⟩
  · cases more with
    | nil => exact h.incomplete n hn (by simpa using hPoint)
    | cons b more =>
      exact h.stuck b (by simp [hRest]) n hn ⟨more, by simp [hPoint]⟩
  · rcases h.begins with hOne | ⟨m, hm, hBegins⟩
    · have hLength := List.length_pos_iff.mpr (encodePoint_ne_nil (n := n))
      rw [hBad, List.length_append] at hOne
      have hNone : more = [] := List.length_eq_zero_iff.mp (by omega)
      exact h.incomplete n hn (by simp [hBad, hNone])
    · have hSame := eq_of_encodePoint_prefix hn hm ((List.prefix_append _ _).trans (hBad ▸ hBegins))
      have hLength := hBegins.length_le
      rw [hBad, List.length_append, hSame] at hLength
      have hNone : more = [] := List.length_eq_zero_iff.mp (by omega)
      exact h.incomplete n hn (by simp [hBad, hNone])

theorem Malformed.length_le {bad rest bad' rest' : List UInt8} (h : Malformed bad rest)
    (h' : Malformed bad' rest') (hEq : bad ++ rest = bad' ++ rest') :
    bad'.length ≤ bad.length := by
  rcases List.append_eq_append_iff.mp hEq with ⟨more, hLong, hRest⟩ | ⟨more, hLong, -⟩
  · cases more with
    | nil => simp [hLong]
    | cons b more =>
      rcases h'.begins with hOne | ⟨m, hm, hBegins⟩
      · have hNonempty := List.length_pos_iff.mpr h.nonempty
        omega
      · refine absurd ?_ (h.stuck b (by simp [hRest]) m hm)
        exact List.IsPrefix.trans ⟨more, by simp [hLong]⟩ hBegins
  · simp [hLong]

theorem encodePoint_append_inj {n m : Nat} {rest rest' : List UInt8} (hn : IsScalar n)
    (hm : IsScalar m) (h : encodePoint n ++ rest = encodePoint m ++ rest') : n = m ∧ rest = rest' := by
  have hPoints := congrArg (points none) h
  rw [points_encodePoint hn, points_encodePoint hm] at hPoints
  obtain rfl := (List.cons.inj hPoints).1
  exact ⟨rfl, List.append_cancel_left h⟩

theorem Malformed.append_inj {bad rest bad' rest' : List UInt8} (h : Malformed bad rest)
    (h' : Malformed bad' rest') (hEq : bad ++ rest = bad' ++ rest') : rest = rest' :=
  (List.append_inj hEq (Nat.le_antisymm (h'.length_le h hEq.symm) (h.length_le h' hEq))).2

theorem Reads.unique {bytes : List UInt8} {ns ms : List Nat} (h : Reads bytes ns)
    (h' : Reads bytes ms) : ns = ms := by
  induction h generalizing ms with
  | nil =>
    generalize hBytes : ([] : List UInt8) = bytes at h'
    cases h' with
    | nil => rfl
    | point => exact absurd (List.append_eq_nil_iff.mp hBytes.symm).1 encodePoint_ne_nil
    | replaced hBad => exact absurd (List.append_eq_nil_iff.mp hBytes.symm).1 hBad.nonempty
  | @point n rest _ hn _ ih =>
    generalize hBytes : encodePoint n ++ rest = bytes at h'
    cases h' with
    | nil => exact absurd (List.append_eq_nil_iff.mp hBytes).1 encodePoint_ne_nil
    | point hm hRest =>
      obtain ⟨rfl, rfl⟩ := encodePoint_append_inj hn hm hBytes
      rw [ih hRest]
    | replaced hBad => exact absurd hBytes.symm (hBad.ne_encodePoint hn)
  | @replaced bad rest _ hBad _ ih =>
    generalize hBytes : bad ++ rest = bytes at h'
    cases h' with
    | nil => exact absurd (List.append_eq_nil_iff.mp hBytes).1 hBad.nonempty
    | point hn => exact absurd hBytes (hBad.ne_encodePoint hn)
    | replaced hBad' hRest =>
      obtain rfl := hBad.append_inj hBad' hBytes
      rw [ih hRest]

theorem points_flatMap_encodePoint {ns : List Nat} (h : ∀ n ∈ ns, IsScalar n) :
    points none (ns.flatMap encodePoint) = ns := by
  induction ns with
  | nil => rfl
  | cons n rest ih =>
    rw [List.flatMap_cons, points_encodePoint (h n List.mem_cons_self),
      ih fun m hm => h m (List.mem_cons_of_mem _ hm)]

theorem Reads.isScalar {bytes : List UInt8} {ns : List Nat} (h : Reads bytes ns) :
    ∀ n ∈ ns, IsScalar n := by
  induction h with
  | nil => simp
  | point hPoint _ ih => simpa using ⟨hPoint, ih⟩
  | replaced _ _ ih =>
    have hReplacement : IsScalar replacement := by decide
    simpa using ⟨hReplacement, ih⟩

theorem decode_encode {t : Text} (h : t.Paired) : decode (encode t) = t := by
  rw [decode_eq, encode, points_flatMap_encodePoint (Text.isScalar_codePoints t),
    Text.ofPoints_codePoints h]

theorem Character.encodes {bytes : List UInt8} (h : Character bytes) :
    ∃ n, IsScalar n ∧ encodePoint n = bytes := by
  cases h with
  | one ha => exact ⟨_, .inl (by omega), (encodePoint_eq_one ha).mpr ⟨_, rfl, rfl⟩⟩
  | @two a b ha hb =>
    unfold IsTail at hb
    refine ⟨(a.toNat - 0xC0) * 0x40 + (b.toNat - 0x80), .inl (by omega), ?_⟩
    exact (encodePoint_eq_two (by omega)).mpr ⟨a, b, rfl, by omega, by omega⟩
  | @three a b c ha hb hc hShort hSurrogate =>
    unfold IsTail at hb hc
    refine ⟨(a.toNat - 0xE0) * 0x1000 + (b.toNat - 0x80) * 0x40 + (c.toNat - 0x80), ?_, ?_⟩
    · unfold IsScalar
      omega
    · exact (encodePoint_eq_three (by omega)).mpr ⟨a, b, c, rfl, by omega, by omega, by omega⟩
  | @four a b c d ha hb hc hd hShort hGreat =>
    unfold IsTail at hb hc hd
    refine ⟨(a.toNat - 0xF0) * 0x40000 + (b.toNat - 0x80) * 0x1000 + (c.toNat - 0x80) * 0x40 +
      (d.toNat - 0x80), ?_, ?_⟩
    · unfold IsScalar
      omega
    · exact (encodePoint_eq_four (by omega)).mpr
        ⟨a, b, c, d, rfl, by omega, by omega, by omega, by omega⟩

theorem WellFormed.encodes {bytes : List UInt8} (h : WellFormed bytes) :
    ∃ ns : List Nat, (∀ n ∈ ns, IsScalar n) ∧ ns.flatMap encodePoint = bytes := by
  induction h with
  | nil => exact ⟨[], by simp, rfl⟩
  | cons hFirst _ ih =>
    obtain ⟨n, hScalar, hEncode⟩ := hFirst.encodes
    obtain ⟨ns, hScalars, hRest⟩ := ih
    exact ⟨n :: ns, by simpa using ⟨hScalar, hScalars⟩, by rw [List.flatMap_cons, hEncode, hRest]⟩

theorem encode_decode {bytes : List UInt8} (h : WellFormed bytes) :
    encode (decode bytes) = bytes := by
  obtain ⟨ns, hScalars, rfl⟩ := h.encodes
  rw [decode_eq, points_flatMap_encodePoint hScalars, encode, Text.codePoints_ofPoints hScalars]

/-! ## The text of a body -/

def markBytes : List UInt8 := [0xEF, 0xBB, 0xBF]

theorem decodeBody_of_unmarked {bytes : List UInt8} (h : WellFormed bytes)
    (hMark : ¬ markBytes <+: bytes) : decodeBody bytes = decode bytes := by
  have hNone : dropMark (decode bytes) = decode bytes := by
    cases hText : decode bytes with
    | nil => rfl
    | cons u rest =>
      have hOther : u ≠ byteOrderMark := by
        rintro rfl
        have hUnit : Text.isSurrogate byteOrderMark = false := by decide
        refine hMark ⟨encode rest, ?_⟩
        rw [← encode_decode h, hText]
        unfold encode
        rw [Text.codePoints_unit hUnit, List.flatMap_cons]
        rfl
      rw [dropMark, if_neg (by simpa using hOther)]
  rw [decodeBody, hNone, hNone]

end Enroll.Utf8
