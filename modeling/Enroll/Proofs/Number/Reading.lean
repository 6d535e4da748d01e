import Enroll.Proofs.Json.Lexing
import Enroll.Proofs.Text.Blank

/-!
# Texts that stand for numbers

`Number.Reads` is the reading of a text as a number: a literal with blanks around it stands for the
number nearest to what it spells, nothing but blanks for zero, and any other text for none. A
literal is a decimal, where digits may be missing on one side of the point, `Infinity`, or digits
in base 16, 8 or 2 behind their mark; only the first two may have a sign.
-/

namespace Enroll

namespace Literal

open Json (Digits Sign Exponent HexDigit EndsDigits)

/-! ## Literals -/

/-- The digits of a decimal, before and after its point. -/
inductive Mantissa : Text → Text → Text → Prop where
  | whole {ws : Text} (hDigits : Digits ws) : Mantissa ws ws []
  | point {ws fs : Text} (hWhole : ∀ u ∈ ws, Text.isDigit u) (hFraction : ∀ u ∈ fs, Text.isDigit u)
    (hSome : ws ≠ [] ∨ fs ≠ []) : Mantissa (ws ++ 0x2E :: fs) ws fs

inductive Signed : Text → Number → Prop where
  | infinity {sign : Text} {negative : Bool} (hSign : Sign sign negative) :
    Signed (sign ++ "Infinity") (.infinity negative)
  | decimal {sign mantissa ws fs exponent : Text} {negative : Bool} {e : Int} {x : Number}
    (hSign : Sign sign negative) (hMantissa : Mantissa mantissa ws fs)
    (hExponent : Exponent exponent e)
    (hRounds : Number.Rounds negative ((natOf ws + natOf fs / 10 ^ fs.length) * 10 ^ e) x) :
    Signed (sign ++ (mantissa ++ exponent)) x

inductive BaseMark : UInt16 → Nat → Prop where
  | hexLower : BaseMark 0x78 16
  | hexUpper : BaseMark 0x58 16
  | octalLower : BaseMark 0x6F 8
  | octalUpper : BaseMark 0x4F 8
  | binaryLower : BaseMark 0x62 2
  | binaryUpper : BaseMark 0x42 2

/-- Digits below a base, and the natural that they spell in it. -/
inductive InBase (base : Nat) : Text → Nat → Prop where
  | digit {u : UInt16} {d : Nat} (hDigit : HexDigit u d) (hLess : d < base) : InBase base [u] d
  | next {ds : Text} {n d : Nat} {u : UInt16} (hBefore : InBase base ds n) (hDigit : HexDigit u d)
    (hLess : d < base) : InBase base (ds ++ [u]) (n * base + d)

/-- A literal and the number that it stands for. -/
inductive StandsFor : Text → Number → Prop where
  | signed {t : Text} {x : Number} (hSigned : Signed t x) : StandsFor t x
  | based {mark : UInt16} {ds : Text} {base n : Nat} {x : Number} (hMark : BaseMark mark base)
    (hDigits : InBase base ds n) (hRounds : Number.Rounds false n x) :
    StandsFor (0x30 :: mark :: ds) x

end Literal

/-- What a text reads as where a number is wanted. -/
inductive Number.Reads : Text → Number → Prop where
  | blank {t : Text} (hBlank : ∀ u ∈ t, Text.isBlank u) : Reads t (.zero false)
  | literal {before t after : Text} {x : Number} (hBefore : ∀ u ∈ before, Text.isBlank u)
    (hAfter : ∀ u ∈ after, Text.isBlank u) (hLiteral : Literal.StandsFor t x) :
    Reads (before ++ t ++ after) x
  | other {t : Text} (hSome : ∃ u ∈ t, Text.isBlank u = false)
    (hNone : ∀ before l after x, t = before ++ l ++ after → (∀ u ∈ before, Text.isBlank u) →
      (∀ u ∈ after, Text.isBlank u) → ¬Literal.StandsFor l x) : Reads t .nan

namespace Literal

open Json (Digits Sign Exponent HexDigit EndsDigits)

/-! ## Digits in a base -/

theorem radix?_eq_some_iff {u : UInt16} {base : Nat} : radix? u = some base ↔ BaseMark u base := by
  constructor
  · intro h
    unfold radix? at h
    simp only [Bool.or_eq_true, beq_iff_eq] at h
    split_ifs at h with hHex hOctal hBinary
    · obtain rfl := Option.some.inj h
      rcases hHex with rfl | rfl
      · exact .hexLower
      · exact .hexUpper
    · obtain rfl := Option.some.inj h
      rcases hOctal with rfl | rfl
      · exact .octalLower
      · exact .octalUpper
    · obtain rfl := Option.some.inj h
      rcases hBinary with rfl | rfl
      · exact .binaryLower
      · exact .binaryUpper
  · rintro (_ | _) <;> rfl

theorem BaseMark.base_le {u : UInt16} {base : Nat} (h : BaseMark u base) : base ≤ 16 := by
  cases h <;> decide

theorem below_eq_some_iff {v base limit d : Nat} (h : base ≤ limit) :
    (if v < base then some v else none) = some d ↔
      (if v < limit then some v else none) = some d ∧ d < base := by
  simp only [Option.ite_none_right_eq_some, Option.some.injEq]
  omega

theorem radixDigit?_eq_some_iff {base : Nat} (hBase : base ≤ 16) {u : UInt16} {d : Nat} :
    radixDigit? base u = some d ↔ HexDigit u d ∧ d < base := by
  rw [← Json.radixDigit?_eq_some_iff]
  unfold radixDigit?
  by_cases hDecimal : Text.isDigit u
  · simp only [if_pos hDecimal]
    exact below_eq_some_iff hBase
  by_cases hLower : 0x61 ≤ u && u ≤ 0x66
  · simp only [if_neg hDecimal, if_pos hLower]
    exact below_eq_some_iff hBase
  by_cases hUpper : 0x41 ≤ u && u ≤ 0x46
  · simp only [if_neg hDecimal, if_neg hLower, if_pos hUpper]
    exact below_eq_some_iff hBase
  · simp only [if_neg hDecimal, if_neg hLower, if_neg hUpper, lt_irrefl, if_false]
    simp

theorem radixValue?_singleton (base : Nat) (u : UInt16) :
    radixValue? base [u] = radixDigit? base u := by
  simp [radixValue?]

theorem radixValue?_cons (base : Nat) (u : UInt16) (ds : Text) :
    radixValue? base (u :: ds) =
      (u :: ds).foldlM (fun n u => (radixDigit? base u).map (n * base + ·)) 0 := rfl

theorem radixValue?_concat (base : Nat) {ds : Text} (hSome : ds ≠ []) (u : UInt16) :
    radixValue? base (ds ++ [u]) =
      (radixValue? base ds).bind fun n => (radixDigit? base u).map (n * base + ·) := by
  obtain ⟨v, rest, rfl⟩ := List.exists_cons_of_ne_nil hSome
  rw [List.cons_append, radixValue?_cons, radixValue?_cons, ← List.cons_append, List.foldlM_append]
  simp

theorem InBase.ne_nil {base : Nat} {ds : Text} {n : Nat} (h : InBase base ds n) : ds ≠ [] := by
  cases h <;> simp

theorem radixValue?_of_inBase {base : Nat} (hBase : base ≤ 16) {ds : Text} {n : Nat}
    (h : InBase base ds n) : radixValue? base ds = some n := by
  induction h with
  | digit hDigit hLess =>
    rw [radixValue?_singleton]
    exact (radixDigit?_eq_some_iff hBase).mpr ⟨hDigit, hLess⟩
  | next hBefore hDigit hLess ih =>
    rw [radixValue?_concat base hBefore.ne_nil, ih,
      (radixDigit?_eq_some_iff hBase).mpr ⟨hDigit, hLess⟩]
    rfl

theorem inBase_of_radixValue? {base : Nat} (hBase : base ≤ 16) {ds : Text} {n : Nat}
    (h : radixValue? base ds = some n) : InBase base ds n := by
  -- digits are read from the left, so the last one is taken off
  induction ds using List.reverseRecOn generalizing n with
  | nil => cases h
  | append_singleton ds u ih =>
    obtain rfl | hSome := eq_or_ne ds []
    · rw [List.nil_append, radixValue?_singleton] at h
      obtain ⟨hDigit, hLess⟩ := (radixDigit?_eq_some_iff hBase).mp h
      exact .digit hDigit hLess
    · rw [radixValue?_concat base hSome] at h
      obtain ⟨m, hBefore, h⟩ := Option.bind_eq_some_iff.mp h
      obtain ⟨d, hLast, rfl⟩ := Option.map_eq_some_iff.mp h
      obtain ⟨hDigit, hLess⟩ := (radixDigit?_eq_some_iff hBase).mp hLast
      exact .next (ih hBefore) hDigit hLess

theorem based?_eq_some_iff {t : Text} {n : Nat} :
    based? t = some n ↔ ∃ mark base ds, t = 0x30 :: mark :: ds ∧ BaseMark mark base ∧
      InBase base ds n := by
  constructor
  · intro h
    unfold based? at h
    split at h
    · rename_i zero mark ds
      split at h
      · rename_i hZero
        obtain rfl := beq_iff_eq.mp hZero
        obtain ⟨base, hRadix, hValue⟩ := Option.bind_eq_some_iff.mp h
        have hMark := radix?_eq_some_iff.mp hRadix
        exact ⟨mark, base, ds, rfl, hMark, inBase_of_radixValue? hMark.base_le hValue⟩
      · cases h
    · cases h
  · rintro ⟨mark, base, ds, rfl, hMark, hDigits⟩
    rw [based?, if_pos (beq_self_eq_true _), radix?_eq_some_iff.mpr hMark, Option.bind_some]
    exact radixValue?_of_inBase hMark.base_le hDigits

/-! ## Decimals -/

/-- A text in which something follows a sign that is no sign itself. -/
theorem sign_append {s t : Text} {negative : Bool} (hSign : Sign s negative)
    (hHead : ∀ u ∈ t.head?, u ≠ 0x2D ∧ u ≠ 0x2B) : sign (s ++ t) = (negative, t) := by
  cases hSign with
  | absent =>
    cases t with
    | nil => rfl
    | cons u rest =>
      obtain ⟨hMinus, hPlus⟩ := hHead u rfl
      simp [sign, hMinus, hPlus]
  | plus => rfl
  | minus => rfl

inductive Unsigned : Text → Decimal → Prop where
  | mk {mantissa ws fs exponent : Text} {e : Int} (hMantissa : Mantissa mantissa ws fs)
    (hExponent : Exponent exponent e) : Unsigned (mantissa ++ exponent) (ofParts ws fs e)

theorem unsigned_of_parts {ws fs after : Text} {mantissa : Text} {d : Decimal}
    (hMantissa : Mantissa mantissa ws fs)
    (h : (ofParts ws fs (exponent after).1, (exponent after).2) = (d, [])) :
    Unsigned (mantissa ++ after) d := by
  obtain ⟨rfl, hEnd⟩ := Prod.mk.inj h
  obtain ⟨es, hAfter, hExponent⟩ := Json.exponent_spec after
  rw [hEnd, List.append_nil] at hAfter
  exact .mk hMantissa (hAfter ▸ hExponent)

/-- The digits behind a point that need not be there, and the rest. -/
def afterPoint (t : Text) : Text × Text :=
  match t with
  | [] => ([], [])
  | u :: rest => if u == 0x2E then digits rest else ([], u :: rest)

theorem lenient?_of_parts {t ws after fs rest : Text} (hRun : digits t = (ws, after))
    (hPoint : afterPoint after = (fs, rest)) :
    lenient? t = if ws.isEmpty && fs.isEmpty then none
      else some (ofParts ws fs (exponent rest).1, (exponent rest).2) := by
  have hParts : lenient? t =
      if (digits t).1.isEmpty && (afterPoint (digits t).2).1.isEmpty then none
      else some (ofParts (digits t).1 (afterPoint (digits t).2).1
        (exponent (afterPoint (digits t).2).2).1, (exponent (afterPoint (digits t).2).2).2) := rfl
  rw [hParts, hRun, hPoint]

/-- What follows the digits at the start begins with a point or is left as it is. -/
theorem afterPoint_cases (t : Text) :
    (∃ rest, t = 0x2E :: rest ∧ afterPoint t = digits rest) ∨ afterPoint t = ([], t) := by
  cases t with
  | nil => exact .inr rfl
  | cons u rest =>
    by_cases hPoint : u = 0x2E
    · exact .inl ⟨rest, hPoint ▸ rfl, if_pos (beq_iff_eq.mpr hPoint)⟩
    · exact .inr (if_neg (by simpa using hPoint))

theorem afterPoint_exponent {t : Text} {e : Int} (h : Exponent t e) : afterPoint t = ([], t) := by
  cases h with
  | absent => rfl
  | power hMark =>
    rcases hMark with rfl | rfl
    · rfl
    · rfl

theorem unsigned_of_lenient? {t : Text} {d : Decimal} (h : lenient? t = some (d, [])) :
    Unsigned t d := by
  obtain ⟨hSplit, hWhole⟩ := Json.digits_spec t
  rcases hRun : digits t with ⟨ws, after⟩
  rw [hRun] at hSplit hWhole
  obtain ⟨rest, rfl, hPoint⟩ | hNone := afterPoint_cases after
  · obtain ⟨hSplit', hFraction⟩ := Json.digits_spec rest
    rcases hRun' : digits rest with ⟨fs, after⟩
    rw [hRun'] at hSplit' hFraction hPoint
    rw [lenient?_of_parts hRun hPoint] at h
    split_ifs at h with hEmpty
    have hMantissa : Mantissa (ws ++ 0x2E :: fs) ws fs := by
      refine .point hWhole hFraction ?_
      simpa [or_iff_not_imp_left] using hEmpty
    have hUnsigned := unsigned_of_parts hMantissa (Option.some.inj h)
    rwa [List.append_assoc, List.cons_append, hSplit', hSplit] at hUnsigned
  · rw [lenient?_of_parts hRun hNone] at h
    split_ifs at h with hEmpty
    have hSome : ws ≠ [] := by simpa using hEmpty
    rw [← hSplit]
    exact unsigned_of_parts (.whole ⟨hSome, hWhole⟩) (Option.some.inj h)

theorem lenient?_of_unsigned {t : Text} {d : Decimal} (h : Unsigned t d) :
    lenient? t = some (d, []) := by
  obtain @⟨mantissa, ws, fs, es, e, hMantissa, hExponent⟩ := h
  have hEnd := Json.exponent_of hExponent
  cases hMantissa with
  | whole hDigits =>
    have hRun := Json.digits_append hDigits.digit hExponent.endsDigits
    have hSome := hDigits.nonempty
    rw [lenient?_of_parts hRun (afterPoint_exponent hExponent), hEnd, if_neg (by simpa using hSome)]
  | point hWhole hFraction hSome =>
    have hRun' := Json.digits_append hFraction hExponent.endsDigits
    rw [List.append_assoc, List.cons_append]
    have hPointEnds : EndsDigits (0x2E :: (fs ++ es)) := by
      intro u hu
      obtain rfl := Option.mem_some.mp hu
      rfl
    have hRun := Json.digits_append hWhole hPointEnds
    rw [lenient?_of_parts hRun hRun', hEnd, if_neg (by simpa [or_iff_not_imp_left] using hSome)]

/-! ## Signed literals -/

theorem Mantissa.head {t ws fs : Text} (h : Mantissa t ws fs) :
    ∃ u rest, t = u :: rest ∧ (Text.isDigit u ∨ u = 0x2E) := by
  cases h with
  | whole hDigits =>
    obtain ⟨u, rest, rfl⟩ := List.exists_cons_of_ne_nil hDigits.nonempty
    exact ⟨u, rest, rfl, .inl (hDigits.digit u List.mem_cons_self)⟩
  | point hWhole =>
    cases ws with
    | nil => exact ⟨0x2E, fs, rfl, .inr rfl⟩
    | cons u rest => exact ⟨u, _, rfl, .inl (hWhole u List.mem_cons_self)⟩

theorem ne_of_mantissa_head {u v : UInt16} (h : Text.isDigit u ∨ u = 0x2E)
    (hDigit : Text.isDigit v = false) (hPoint : v ≠ 0x2E) : u ≠ v := by
  rintro rfl
  rcases h with h | h
  · exact absurd h (by simp [hDigit])
  · exact hPoint h

theorem signed_of_ofSigned? {t : Text} {x : Number} (h : Number.ofSigned? t = some x) :
    Signed t x := by
  obtain ⟨s, hSplit, hSign⟩ := Json.sign_spec t
  rcases hRun : sign t with ⟨negative, rest⟩
  rw [hRun] at hSplit hSign
  simp only [Number.ofSigned?, hRun] at h
  rw [hSplit]
  split_ifs at h with hInfinity
  · obtain rfl := Option.some.inj h
    exact hInfinity ▸ .infinity hSign
  · split at h
    · rename_i d hLenient
      obtain rfl := Option.some.inj h
      have hRounds := Number.rounds_ofDecimal negative d
      cases unsigned_of_lenient? hLenient with
      | mk hMantissa hExponent =>
        rw [Json.value_ofParts] at hRounds
        exact .decimal hSign hMantissa hExponent hRounds
    · cases h

theorem ofSigned?_of_signed {t : Text} {x : Number} (h : Signed t x) :
    Number.ofSigned? t = some x := by
  cases h with
  | infinity hSign =>
    have hRun := sign_append (t := "Infinity") hSign fun u hu => by
      obtain rfl : 0x49 = u := Option.some.inj hu
      decide
    simp only [Number.ofSigned?, hRun, if_true]
  | @decimal s mantissa ws fs exponent negative e x hSign hMantissa hExponent hRounds =>
    obtain ⟨u, rest, rfl, hHead⟩ := hMantissa.head
    have hRun := sign_append (t := u :: rest ++ exponent) hSign fun v hv => by
      obtain rfl := Option.mem_some.mp hv
      exact ⟨ne_of_mantissa_head hHead rfl (by decide), ne_of_mantissa_head hHead rfl (by decide)⟩
    have hFinite : u :: rest ++ exponent ≠ "Infinity" := fun hEq =>
      ne_of_mantissa_head (v := 0x49) hHead rfl (by decide) (List.cons.inj hEq).1
    rw [← Json.value_ofParts] at hRounds
    simp only [Number.ofSigned?, hRun, lenient?_of_unsigned (.mk hMantissa hExponent),
      if_neg hFinite]
    exact congrArg some ((Number.rounds_ofDecimal _ _).unique hRounds)

/-- Digits behind a mark are no decimal. -/
theorem ofSigned?_of_mark {mark : UInt16} {base : Nat} (hMark : BaseMark mark base) (ds : Text) :
    Number.ofSigned? (0x30 :: mark :: ds) = none := by
  cases hMark <;> rfl

/-! ## Literals as a whole -/

theorem based_rounds_iff {n : Nat} {x : Number} : Number.Rounds false n x ↔ x = .ofNat n := by
  have hRounds := Number.rounds_ofRatio false n one_pos
  rw [Nat.cast_one, div_one] at hRounds
  exact ⟨fun h => h.unique hRounds, fun h => h ▸ hRounds⟩

/-- The number of a literal, digits behind a mark first. -/
def value? (t : Text) : Option Number :=
  match based? t with
  | some n => some (.ofNat n)
  | none => Number.ofSigned? t

theorem value?_eq_some_iff {t : Text} {x : Number} : value? t = some x ↔ StandsFor t x := by
  unfold value?
  cases hBased : based? t with
  | some n =>
    obtain ⟨mark, base, ds, rfl, hMark, hDigits⟩ := based?_eq_some_iff.mp hBased
    constructor
    · intro h
      obtain rfl := Option.some.inj h
      exact .based hMark hDigits (based_rounds_iff.mpr rfl)
    · rintro (hSigned | ⟨hMark', hDigits', hRounds⟩)
      · have hNone := ofSigned?_of_mark hMark ds
        rw [ofSigned?_of_signed hSigned] at hNone
        cases hNone
      · obtain rfl := based_rounds_iff.mp hRounds
        have hBased' := based?_eq_some_iff.mpr ⟨_, _, _, rfl, hMark', hDigits'⟩
        rw [Option.some.inj (hBased.symm.trans hBased')]
  | none =>
    constructor
    · exact fun h => .signed (signed_of_ofSigned? h)
    · rintro (hSigned | ⟨hMark, hDigits, hRounds⟩)
      · exact ofSigned?_of_signed hSigned
      · have hBased' := based?_eq_some_iff.mpr ⟨_, _, _, rfl, hMark, hDigits⟩
        exact absurd (hBased.symm.trans hBased') nofun

/-- A character of ASCII that is neither a blank nor a control character. -/
def Visible (u : UInt16) : Prop := 0x21 ≤ u.toNat ∧ u.toNat ≤ 0x7E

instance : DecidablePred Visible := fun u =>
  inferInstanceAs (Decidable (0x21 ≤ u.toNat ∧ u.toNat ≤ 0x7E))

theorem visible_of_isDigit {u : UInt16} (h : Text.isDigit u) : Visible u := by
  rw [Text.isDigit_iff] at h
  exact ⟨by omega, by omega⟩

theorem visible_of_hexDigit {u : UInt16} {d : Nat} (h : HexDigit u d) : Visible u := by
  cases h with
  | decimal h | lower h | upper h => exact ⟨by omega, by omega⟩

theorem visible_of_sign {s : Text} {negative : Bool} (h : Sign s negative) : ∀ u ∈ s, Visible u := by
  cases h <;> simp [Visible]

theorem visible_of_mantissa {t ws fs : Text} (h : Mantissa t ws fs) : ∀ u ∈ t, Visible u := by
  intro u hu
  cases h with
  | whole hDigits => exact visible_of_isDigit (hDigits.digit u hu)
  | point hWhole hFraction =>
    rcases List.mem_append.mp hu with hu | hu
    · exact visible_of_isDigit (hWhole u hu)
    · rcases List.mem_cons.mp hu with rfl | hu
      · exact ⟨by decide, by decide⟩
      · exact visible_of_isDigit (hFraction u hu)

theorem visible_of_exponent {t : Text} {e : Int} (h : Exponent t e) : ∀ u ∈ t, Visible u := by
  intro u hu
  cases h with
  | absent => exact absurd hu List.not_mem_nil
  | power hMark hSign hDigits =>
    rcases List.mem_cons.mp hu with rfl | hu
    · rcases hMark with rfl | rfl
      · exact ⟨by decide, by decide⟩
      · exact ⟨by decide, by decide⟩
    · rcases List.mem_append.mp hu with hu | hu
      · exact visible_of_sign hSign u hu
      · exact visible_of_isDigit (hDigits.digit u hu)

theorem InBase.visible {base : Nat} {ds : Text} {n : Nat} (h : InBase base ds n) :
    ∀ u ∈ ds, Visible u := by
  induction h with
  | digit hDigit => simpa using visible_of_hexDigit hDigit
  | next hBefore hDigit hLess ih =>
    intro u hu
    rcases List.mem_append.mp hu with hu | hu
    · exact ih u hu
    · obtain rfl := List.mem_singleton.mp hu
      exact visible_of_hexDigit hDigit

theorem Signed.visible {t : Text} {x : Number} (h : Signed t x) : ∀ u ∈ t, Visible u := by
  intro u hu
  cases h with
  | infinity hSign =>
    have hLetters : ("Infinity" : Text).all fun u => Visible u := by decide
    refine (List.mem_append.mp hu).elim (visible_of_sign hSign u) fun hu => ?_
    exact of_decide_eq_true (List.all_eq_true.mp hLetters u hu)
  | decimal hSign hMantissa hExponent =>
    rcases List.mem_append.mp hu with hu | hu
    · exact visible_of_sign hSign u hu
    · exact (List.mem_append.mp hu).elim (visible_of_mantissa hMantissa u)
        (visible_of_exponent hExponent u)

theorem StandsFor.visible {t : Text} {x : Number} (h : StandsFor t x) : ∀ u ∈ t, Visible u := by
  cases h with
  | signed hSigned => exact hSigned.visible
  | based hMark hDigits =>
    refine List.forall_mem_cons.mpr ⟨⟨by decide, by decide⟩, List.forall_mem_cons.mpr ⟨?_, ?_⟩⟩
    · cases hMark <;> exact ⟨by decide, by decide⟩
    · exact hDigits.visible

theorem StandsFor.ne_nil {t : Text} {x : Number} (h : StandsFor t x) : t ≠ [] := by
  rintro rfl
  have hNone := value?_eq_some_iff.mpr h
  cases hNone

/-- Blanks around a literal are just what is trimmed off. -/
theorem StandsFor.trim {before t after : Text} {x : Number} (h : StandsFor t x)
    (hBefore : ∀ u ∈ before, Text.isBlank u) (hAfter : ∀ u ∈ after, Text.isBlank u) :
    (before ++ t ++ after).trim = t := by
  have hUnits : ∀ u ∈ t, Text.isBlank u = false := fun u hu =>
    Text.isBlank_of_ascii (h.visible u hu).1 (h.visible u hu).2
  have hTrimmed : t.Trimmed := by
    constructor
    · exact fun u hu => hUnits u (List.mem_of_mem_head? hu)
    · exact fun u hu => hUnits u (List.mem_of_mem_getLast? hu)
  exact Text.trim_blanks h.ne_nil hTrimmed hBefore hAfter

end Literal

namespace Number

open Literal

theorem ofText_of_trim {t l : Text} (hTrim : t.trim = l) (hSome : l ≠ []) :
    ofText t = (value? l).getD .nan := by
  obtain ⟨u, rest, rfl⟩ := List.exists_cons_of_ne_nil hSome
  rw [ofText, hTrim, value?]
  dsimp only
  cases based? (u :: rest) <;> rfl

theorem reads_ofText (t : Text) : Reads t (ofText t) := by
  obtain ⟨before, after, hSplit, hBefore, hAfter⟩ := Text.trim_spec t
  by_cases hNil : t.trim = []
  · rw [ofText, hNil]
    exact .blank (Text.trim_eq_nil_iff.mp hNil)
  · rw [ofText_of_trim rfl hNil]
    cases hValue : value? t.trim with
    | some x =>
      have hReads := Reads.literal hBefore hAfter (value?_eq_some_iff.mp hValue)
      rwa [← hSplit] at hReads
    | none =>
      refine .other ?_ ?_
      · simpa [Text.trim_eq_nil_iff] using hNil
      · rintro before l after x rfl hBefore hAfter hLiteral
        rw [hLiteral.trim hBefore hAfter, value?_eq_some_iff.mpr hLiteral] at hValue
        cases hValue

theorem ofText_of_reads {t : Text} {x : Number} (h : Reads t x) : ofText t = x := by
  cases h with
  | blank hBlank => rw [ofText, Text.trim_eq_nil_iff.mpr hBlank]
  | literal hBefore hAfter hLiteral =>
    rw [ofText_of_trim (hLiteral.trim hBefore hAfter) hLiteral.ne_nil,
      value?_eq_some_iff.mpr hLiteral]
    rfl
  | other hSome hNone =>
    have hTrim : t.trim ≠ [] := by simpa [Text.trim_eq_nil_iff] using hSome
    obtain ⟨before, after, hSplit, hBefore, hAfter⟩ := Text.trim_spec t
    rw [ofText_of_trim rfl hTrim]
    cases hValue : value? t.trim with
    | none => rfl
    | some x =>
      exact absurd (value?_eq_some_iff.mp hValue) (hNone before _ after x hSplit hBefore hAfter)

/-- A text reads as one number, and that is the one it is taken for. -/
theorem ofText_eq_iff_reads {t : Text} {x : Number} : ofText t = x ↔ Reads t x :=
  ⟨fun h => h ▸ reads_ofText t, ofText_of_reads⟩

end Number

end Enroll
