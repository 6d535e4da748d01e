import Enroll.Proofs.Json.Grammar

/-!
# The scanner and the tokens of a text

What the scanner brings out are the tokens of the text, and it brings out all of them where no two
neighbours could run together.
-/

namespace Enroll.Json

/-! ## Units and words -/

theorem isSpace_iff {u : UInt16} : isSpace u ↔ IsSpace u := by
  simp [isSpace, IsSpace, or_assoc]

theorem escape?_eq_some_iff {u v : UInt16} : escape? u = some v ↔ Escape u v := by
  constructor
  · intro h
    unfold escape? at h
    split_ifs at h with hSelf hB hF hN hR hT
    · obtain rfl := Option.some.inj h
      simp only [Bool.or_eq_true, beq_iff_eq] at hSelf
      rcases hSelf with (rfl | rfl) | rfl
      · exact .quote
      · exact .backslash
      · exact .slash
    · obtain rfl := Option.some.inj h
      exact beq_iff_eq.mp hB ▸ .backspace
    · obtain rfl := Option.some.inj h
      exact beq_iff_eq.mp hF ▸ .formFeed
    · obtain rfl := Option.some.inj h
      exact beq_iff_eq.mp hN ▸ .lineFeed
    · obtain rfl := Option.some.inj h
      exact beq_iff_eq.mp hR ▸ .carriageReturn
    · obtain rfl := Option.some.inj h
      exact beq_iff_eq.mp hT ▸ .tab
  · rintro (_ | _) <;> rfl

theorem radixDigit?_eq_some_iff {u : UInt16} {n : Nat} :
    Literal.radixDigit? 16 u = some n ↔ HexDigit u n := by
  have hLower : (0x61 ≤ u && u ≤ 0x66) = true ↔ 0x61 ≤ u.toNat ∧ u.toNat ≤ 0x66 := by
    simp [UInt16.le_iff_toNat_le]
  have hUpper : (0x41 ≤ u && u ≤ 0x46) = true ↔ 0x41 ≤ u.toNat ∧ u.toNat ≤ 0x46 := by
    simp [UInt16.le_iff_toNat_le]
  simp only [Literal.radixDigit?, Literal.digitValue, Text.isDigit_iff, hLower, hUpper]
  constructor
  · intro h
    split_ifs at h with hDecimal hLess hLow hLess hUp hLess hLess
    · exact Option.some.inj h ▸ .decimal hDecimal
    · exact Option.some.inj h ▸ .lower hLow
    · exact Option.some.inj h ▸ .upper hUp
    · exact absurd hLess (lt_irrefl 16)
  · intro h
    cases h with
    | decimal h =>
      rw [if_pos h, if_pos (by omega)]
    | lower h =>
      have hDecimal : ¬(0x30 ≤ u.toNat ∧ u.toNat ≤ 0x39) := by omega
      rw [if_neg hDecimal, if_pos h, if_pos (by omega)]
    | upper h =>
      have hDecimal : ¬(0x30 ≤ u.toNat ∧ u.toNat ≤ 0x39) := by omega
      have hLow : ¬(0x61 ≤ u.toNat ∧ u.toNat ≤ 0x66) := by omega
      rw [if_neg hDecimal, if_neg hLow, if_pos h, if_pos (by omega)]

theorem word?_eq_some_iff {w : Text} {v : Json} : word? w = some v ↔ Word w v := by
  constructor
  · intro h
    unfold word? at h
    split_ifs at h with hNull hTrue hFalse
    · exact Option.some.inj h ▸ hNull ▸ .ofNull
    · exact Option.some.inj h ▸ hTrue ▸ .ofTrue
    · exact Option.some.inj h ▸ hFalse ▸ .ofFalse
    · obtain ⟨x, hNumeral, rfl⟩ := Option.map_eq_some_iff.mp h
      exact .ofNumeral (numeral?_eq_some_iff.mp hNumeral)
  · rintro (_ | _ | _ | hNumeral)
    · rfl
    · rfl
    · rfl
    · rw [← numeral?_eq_some_iff] at hNumeral
      have hOther : ∀ name : Text, numeral? name = none → w ≠ name := by
        rintro name hNone rfl
        exact Option.some_ne_none _ (hNumeral.symm.trans hNone)
      rw [word?, if_neg (hOther _ rfl), if_neg (hOther _ rfl), if_neg (hOther _ rfl), hNumeral]
      rfl

theorem spells_of_punctuation {u : UInt16} {p : Token} (h : punctuation? u = some p) :
    Spells p [u] := by
  unfold punctuation? at h
  split_ifs at h with h₁ h₂ h₃ h₄ h₅ h₆
  · obtain rfl := Option.some.inj h
    exact beq_iff_eq.mp h₁ ▸ .openArray
  · obtain rfl := Option.some.inj h
    exact beq_iff_eq.mp h₂ ▸ .closeArray
  · obtain rfl := Option.some.inj h
    exact beq_iff_eq.mp h₃ ▸ .openObject
  · obtain rfl := Option.some.inj h
    exact beq_iff_eq.mp h₄ ▸ .closeObject
  · obtain rfl := Option.some.inj h
    exact beq_iff_eq.mp h₅ ▸ .colon
  · obtain rfl := Option.some.inj h
    exact beq_iff_eq.mp h₆ ▸ .comma

theorem isDelimiter_of_isSpace {u : UInt16} (h : IsSpace u) : isDelimiter u := by
  simp [isDelimiter, isSpace_iff.mpr h]

theorem isDelimiter_of_isDigit {u : UInt16} (h : Text.isDigit u) : isDelimiter u = false := by
  rw [Text.isDigit_iff] at h
  have hOther : ∀ v : UInt16, v.toNat < 0x30 ∨ 0x39 < v.toNat → u ≠ v := by
    rintro v hv rfl
    omega
  simp [isDelimiter, isSpace, punctuation?, hOther]

theorem spells_structural {p : Token} {w : Text} (h : Spells p w) (hToken : p.isStructural) :
    ∃ u, w = [u] ∧ isDelimiter u := by
  cases h with
  | string | scalar => exact absurd hToken Bool.false_ne_true
  | _ => exact ⟨_, rfl, rfl⟩

/-- A unit that words are made of: it delimits nothing, and it is a printed ASCII character. -/
def IsWordUnit (u : UInt16) : Prop := isDelimiter u = false ∧ 0x20 ≤ u.toNat ∧ u.toNat < 0x80

instance (u : UInt16) : Decidable (IsWordUnit u) := by
  unfold IsWordUnit
  infer_instance

theorem isWordUnit_of_all {w : Text} (h : w.all fun u => decide (IsWordUnit u)) :
    ∀ u ∈ w, IsWordUnit u := fun u hu => of_decide_eq_true (List.all_eq_true.mp h u hu)

theorem isWordUnit_of_isDigit {u : UInt16} (h : Text.isDigit u) : IsWordUnit u := by
  have hOther := isDelimiter_of_isDigit h
  rw [Text.isDigit_iff] at h
  exact ⟨hOther, by omega, by omega⟩

theorem Minus.units {minus : Text} {negative : Bool} (h : Minus minus negative) :
    ∀ u ∈ minus, IsWordUnit u := by
  cases h with
  | absent => exact fun u hu => absurd hu List.not_mem_nil
  | minus => exact isWordUnit_of_all rfl

theorem Whole.units {whole : Text} (h : Whole whole) :
    whole ≠ [] ∧ ∀ u ∈ whole, IsWordUnit u := by
  cases h with
  | zero => exact ⟨List.cons_ne_nil _ _, isWordUnit_of_all rfl⟩
  | digits hFirst _ hDigits =>
    refine ⟨List.cons_ne_nil _ _, fun u hu => isWordUnit_of_isDigit ?_⟩
    rcases List.mem_cons.mp hu with rfl | hu
    · exact hFirst
    · exact hDigits u hu

theorem Fraction.units {fraction ds : Text} (h : Fraction fraction ds) :
    ∀ u ∈ fraction, IsWordUnit u := by
  cases h with
  | absent => exact fun u hu => absurd hu List.not_mem_nil
  | point hDigits =>
    intro u hu
    rcases List.mem_cons.mp hu with rfl | hu
    · decide
    · exact isWordUnit_of_isDigit (hDigits.digit u hu)

theorem Exponent.units {exponent : Text} {e : Int} (h : Exponent exponent e) :
    ∀ u ∈ exponent, IsWordUnit u := by
  cases h with
  | absent => exact fun u hu => absurd hu List.not_mem_nil
  | power hMark hSign hDigits =>
    intro u hu
    rcases List.mem_cons.mp hu with rfl | hu
    · rcases hMark with rfl | rfl <;> decide
    · rcases List.mem_append.mp hu with hu | hu
      · cases hSign with
        | absent => exact absurd hu List.not_mem_nil
        | plus | minus => exact isWordUnit_of_all rfl u hu
      · exact isWordUnit_of_isDigit (hDigits.digit u hu)

theorem Word.units {w : Text} {v : Json} (h : Word w v) : w ≠ [] ∧ ∀ u ∈ w, IsWordUnit u := by
  cases h with
  | ofNull | ofTrue | ofFalse => exact ⟨List.cons_ne_nil _ _, isWordUnit_of_all rfl⟩
  | ofNumeral hNumeral =>
    cases hNumeral with
    | mk hMinus hWhole hFraction hExponent =>
      refine ⟨by simp [hWhole.units.1], fun u hu => ?_⟩
      rcases List.mem_append.mp hu with hu | hu
      · exact hMinus.units u hu
      · rcases List.mem_append.mp hu with hu | hu
        · exact hWhole.units.2 u hu
        · rcases List.mem_append.mp hu with hu | hu
          · exact hFraction.units u hu
          · exact hExponent.units u hu

/-! ## Every token is brought out -/

/-- A word before this text ends with it. -/
def Delimited (t : Text) : Prop := ∀ u ∈ t.head?, isDelimiter u

theorem scan_space {s : Text} (hSpace : Space s) (out : List Token) (t : Text) :
    scan .between out (s ++ t) = scan .between out t := by
  induction s with
  | nil => rfl
  | cons u rest ih =>
    have hUnit := isSpace_iff.mpr (hSpace u List.mem_cons_self)
    rw [List.cons_append, scan, scanUnit, scanBetween, if_pos hUnit]
    exact ih fun v hv => hSpace v (List.mem_cons_of_mem u hv)

theorem scan_word_units {w : Text} (hUnits : ∀ u ∈ w, IsWordUnit u) (before : Text)
    (out : List Token) (t : Text) :
    scan (.word before) out (w ++ t) = scan (.word (w.reverse ++ before)) out t := by
  induction w generalizing before with
  | nil => rfl
  | cons u rest ih =>
    rw [List.cons_append, scan, scanUnit, (hUnits u List.mem_cons_self).1,
      if_neg Bool.false_ne_true]
    have hRest := ih (fun v hv => hUnits v (List.mem_cons_of_mem u hv)) (u :: before)
    simpa using hRest

theorem scan_word {w t : Text} {v : Json} (h : Word w v) (hEnd : Delimited t) (out : List Token) :
    scan .between out (w ++ t) = scan .between (.scalar v :: out) t := by
  obtain ⟨hNonempty, hUnits⟩ := h.units
  obtain ⟨u, rest, rfl⟩ := List.exists_cons_of_ne_nil hNonempty
  have hWord := word?_eq_some_iff.mpr h
  have hFirst : scanBetween out u = (.word [u], out) := by
    have hOther := (hUnits u List.mem_cons_self).1
    simp only [isDelimiter, Bool.or_eq_false_iff, Option.isSome_eq_false_iff,
      Option.isNone_iff_eq_none] at hOther
    obtain ⟨⟨hSpace, hQuote⟩, hPunctuation⟩ := hOther
    simp [scanBetween, hSpace, hQuote, hPunctuation]
  have hUnitsRest := scan_word_units (fun v hv => hUnits v (List.mem_cons_of_mem u hv)) [u] out t
  rw [List.cons_append, scan, scanUnit, hFirst]
  refine hUnitsRest.trans ?_
  rw [← List.reverse_cons]
  cases t with
  | nil => simp only [scan, scanEnd, List.reverse_reverse, hWord, Option.map_some]
  | cons d rest =>
    have hDelimiter : isDelimiter d := hEnd d rfl
    simp only [scan, scanUnit, hDelimiter, if_true, List.reverse_reverse, hWord, Option.map_some]

theorem scan_chars {body t : Text} (h : Chars body t) (before : Text) (out : List Token)
    (rest : Text) :
    scan (.quoted before) out (body ++ 0x22 :: rest) =
      scan .between (.string (before.reverse ++ t) :: out) rest := by
  induction h generalizing before with
  | nil => simp [scan, scanUnit]
  | @unescaped u _ _ hUnit _ ih =>
    obtain ⟨hControl, hQuote, hBackslash⟩ := hUnit
    have hPrinted : ¬u < 0x20 := by
      rw [UInt16.lt_iff_toNat_lt]
      exact not_lt.mpr hControl
    have hRest := ih (u :: before)
    rw [List.reverse_cons, List.append_assoc] at hRest
    simpa [scan, scanUnit, hQuote, hBackslash, hPrinted] using hRest
  | @escape u v _ _ hEscape _ ih =>
    have hOther : u ≠ 0x75 := by
      rintro rfl
      cases hEscape
    have hRest := ih (v :: before)
    rw [List.reverse_cons, List.append_assoc] at hRest
    simpa [scan, scanUnit, hOther, escape?_eq_some_iff.mpr hEscape] using hRest
  | @hex a b c d i j k l _ _ ha hb hc hd _ ih =>
    have hRest := ih ((((i * 16 + j) * 16 + k) * 16 + l).toUInt16 :: before)
    rw [List.reverse_cons, List.append_assoc] at hRest
    simpa [scan, scanUnit, radixDigit?_eq_some_iff.mpr ha, radixDigit?_eq_some_iff.mpr hb,
      radixDigit?_eq_some_iff.mpr hc, radixDigit?_eq_some_iff.mpr hd] using hRest

theorem scan_token {p : Token} {w t : Text} (h : Spells p w) (out : List Token)
    (hEnd : ¬p.isStructural → Delimited t) :
    scan .between out (w ++ t) = scan .between (p :: out) t := by
  cases h with
  | @string body t' h =>
    rw [List.cons_append, List.append_assoc]
    exact scan_chars h [] out t
  | scalar h => exact scan_word h (hEnd Bool.false_ne_true) out
  | _ => rfl

theorem Lexes.delimited {t : Text} {ts : List Token} (h : Lexes t ts)
    (hHead : ∀ p ∈ ts.head?, p.isStructural) : Delimited t := by
  intro u hu
  cases h with
  | nil hSpace => exact isDelimiter_of_isSpace (hSpace u (List.mem_of_mem_head? hu))
  | @cons s w rest p _ hSpace hToken _ =>
    cases s with
    | cons v s =>
      obtain rfl := Option.mem_some.mp hu
      exact isDelimiter_of_isSpace (hSpace v List.mem_cons_self)
    | nil =>
      obtain ⟨v, rfl, hDelimiter⟩ := spells_structural hToken (hHead p rfl)
      obtain rfl := Option.mem_some.mp hu
      exact hDelimiter

theorem scan_of_lexes {t : Text} {ts : List Token} (h : Lexes t ts) (hApart : Apart ts)
    (out : List Token) : scan .between out t = some (out.reverse ++ ts) := by
  induction h generalizing out with
  | @nil s hSpace =>
    have hEnd := scan_space hSpace out []
    rw [List.append_nil] at hEnd
    rw [hEnd, List.append_nil]
    rfl
  | @cons s w t p ts hSpace hToken hRest ih =>
    obtain ⟨hNext, hApart⟩ := List.isChain_cons.mp hApart
    rw [scan_space hSpace, scan_token hToken out, ih hApart, List.reverse_cons, List.append_assoc]
    · rfl
    · intro hScalar
      exact hRest.delimited fun q hq => (hNext q hq).resolve_left hScalar

/-! ## Nothing else is brought out -/

theorem Chars.append {body body' t t' : Text} (h : Chars body t) (h' : Chars body' t') :
    Chars (body ++ body') (t ++ t') := by
  induction h with
  | nil => exact h'
  | unescaped hUnit _ ih => exact .unescaped hUnit ih
  | escape hEscape _ ih => exact .escape hEscape ih
  | hex ha hb hc hd _ ih => exact .hex ha hb hc hd ih

theorem Lexes.space {s t : Text} {ts : List Token} (hSpace : Space s) (h : Lexes t ts) :
    Lexes (s ++ t) ts := by
  cases h with
  | nil hEnd => exact .nil fun u hu => (List.mem_append.mp hu).elim (hSpace u) (hEnd u)
  | cons hFirst hToken hRest =>
    rw [← List.append_assoc]
    exact .cons (fun u hu => (List.mem_append.mp hu).elim (hSpace u) (hFirst u)) hToken hRest

theorem Lexes.token {w t : Text} {p : Token} {ts : List Token} (hToken : Spells p w)
    (h : Lexes t ts) : Lexes (w ++ t) (p :: ts) :=
  Lexes.cons (s := []) (fun _ hu => absurd hu List.not_mem_nil) hToken h

/-- The first hexadecimal digits of an escape, how many are owed, and their value. -/
inductive HexRun : Text → Nat → Nat → Prop where
  | nil : HexRun [] 4 0
  | digit {ds : Text} {owed value n : Nat} {u : UInt16} (h : HexRun ds (owed + 1) value)
    (hDigit : HexDigit u n) : HexRun (ds ++ [u]) owed (value * 16 + n)

theorem HexRun.owed_le {ds : Text} {owed value : Nat} (h : HexRun ds owed value) : owed ≤ 4 := by
  induction h with
  | nil => exact le_rfl
  | digit _ _ ih => exact Nat.le_of_succ_le ih

theorem HexRun.chars {ds : Text} {value : Nat} (h : HexRun ds 0 value) :
    Chars (0x5C :: 0x75 :: ds) [value.toUInt16] := by
  cases h with
  | digit h hd =>
    cases h with
    | digit h hc =>
      cases h with
      | digit h hb =>
        cases h with
        | digit h ha =>
          cases h with
          | nil => simpa using Chars.hex ha hb hc hd .nil
          | digit h => exact absurd h.owed_le (by omega)

/-- What the rest of a text has to be like for these tokens to come out of it. -/
def Continues (rest : Text) (ts : List Token) : Scan → Prop
  | .between => Lexes rest ts
  | .word w => Lexes (w.reverse ++ rest) ts
  | .quoted t => ∀ body, Chars body t.reverse → Lexes (0x22 :: (body ++ rest)) ts
  | .escaped t => ∀ body, Chars body t.reverse → Lexes (0x22 :: (body ++ 0x5C :: rest)) ts
  | .hex t owed value => ∀ body ds n, owed = n + 1 → Chars body t.reverse → HexRun ds owed value →
      Lexes (0x22 :: (body ++ 0x5C :: 0x75 :: (ds ++ rest))) ts

/-- One unit brings out some tokens, and the rest of the text the others. -/
def Brings (s : Scan) (out : List Token) (u : UInt16) (s' : Scan) (out' : List Token) : Prop :=
  ∃ new, out' = new.reverse ++ out ∧
    ∀ rest ts, Continues rest ts s' → Continues (u :: rest) (new ++ ts) s

theorem Brings.of_continues {s s' : Scan} {out : List Token} {u : UInt16}
    (h : ∀ rest ts, Continues rest ts s' → Continues (u :: rest) ts s) : Brings s out u s' out :=
  ⟨[], rfl, h⟩

theorem brings_scanBetween (out : List Token) (u : UInt16) :
    Brings .between out u (scanBetween out u).1 (scanBetween out u).2 := by
  unfold scanBetween
  split
  · rename_i hSpace
    refine .of_continues fun rest ts h => ?_
    exact Lexes.space (s := [u]) (by simpa [Space] using isSpace_iff.mp hSpace) h
  · split
    · rename_i hQuote
      refine .of_continues fun rest ts h => ?_
      exact beq_iff_eq.mp hQuote ▸ h [] .nil
    · split
      · rename_i p hPunctuation
        exact ⟨[p], rfl, fun rest ts h => Lexes.token (spells_of_punctuation hPunctuation) h⟩
      · exact .of_continues fun rest ts h => h

theorem brings_word {w : Text} {out : List Token} {u : UInt16} {v : Json}
    (hWord : word? w.reverse = some v) :
    Brings (.word w) out u (scanBetween (.scalar v :: out) u).1
      (scanBetween (.scalar v :: out) u).2 := by
  obtain ⟨new, hOut, hContinues⟩ := brings_scanBetween (.scalar v :: out) u
  refine ⟨.scalar v :: new, by simpa using hOut, fun rest ts h => ?_⟩
  exact Lexes.token (.scalar (word?_eq_some_iff.mp hWord)) (hContinues rest ts h)

/-- A string goes on with what these units denote. -/
theorem continues_quoted {t units rest : Text} {u : UInt16} {ts : List Token} {body : Text}
    (h : Continues rest ts (.quoted (u :: t))) (hBody : Chars body t.reverse)
    (hUnits : Chars units [u]) : Lexes (0x22 :: (body ++ (units ++ rest))) ts := by
  have hLexes := h (body ++ units) (by rw [List.reverse_cons]; exact hBody.append hUnits)
  rwa [List.append_assoc] at hLexes

theorem brings_quoted {t : Text} {s' : Scan} {out out' : List Token} {u : UInt16}
    (h : scanUnit (.quoted t) out u = some (s', out')) : Brings (.quoted t) out u s' out' := by
  rw [scanUnit] at h
  split_ifs at h with hQuote hBackslash hControl
  · obtain ⟨rfl, rfl⟩ := Prod.mk.inj (Option.some.inj h)
    refine ⟨[.string t.reverse], rfl, fun rest ts h body hBody => ?_⟩
    have hLexes := Lexes.token (.string hBody) h
    rw [List.cons_append, List.append_assoc] at hLexes
    exact beq_iff_eq.mp hQuote ▸ hLexes
  · obtain ⟨rfl, rfl⟩ := Prod.mk.inj (Option.some.inj h)
    exact .of_continues fun rest ts h => beq_iff_eq.mp hBackslash ▸ h
  · obtain ⟨rfl, rfl⟩ := Prod.mk.inj (Option.some.inj h)
    refine .of_continues fun rest ts h body hBody => ?_
    have hPrinted : 0x20 ≤ u.toNat := by
      rw [UInt16.lt_iff_toNat_lt] at hControl
      exact not_lt.mp hControl
    have hUnit : Unescaped u := ⟨hPrinted, by simpa using hQuote, by simpa using hBackslash⟩
    exact continues_quoted h hBody (.unescaped hUnit .nil)

theorem brings_escaped {t : Text} {s' : Scan} {out out' : List Token} {u : UInt16}
    (h : scanUnit (.escaped t) out u = some (s', out')) : Brings (.escaped t) out u s' out' := by
  rw [scanUnit] at h
  split at h
  · rename_i hHex
    obtain ⟨rfl, rfl⟩ := Prod.mk.inj (Option.some.inj h)
    refine .of_continues fun rest ts h body hBody => ?_
    exact beq_iff_eq.mp hHex ▸ h body [] 3 rfl hBody .nil
  · obtain ⟨v, hEscape, hEq⟩ := Option.map_eq_some_iff.mp h
    obtain ⟨rfl, rfl⟩ := Prod.mk.inj hEq
    refine .of_continues fun rest ts h body hBody => ?_
    exact continues_quoted h hBody (.escape (escape?_eq_some_iff.mp hEscape) .nil)

/-- A digit of an escape is its last, and the string goes on, or leaves one digit less to come. -/
theorem brings_hex {t : Text} {owed value : Nat} {s' : Scan} {out out' : List Token} {u : UInt16}
    (h : scanUnit (.hex t owed value) out u = some (s', out')) :
    Brings (.hex t owed value) out u s' out' := by
  obtain ⟨d, hDigit, hEq⟩ := Option.map_eq_some_iff.mp h
  rw [radixDigit?_eq_some_iff] at hDigit
  split at hEq
  · rename_i hLast
    obtain ⟨rfl, rfl⟩ := Prod.mk.inj hEq
    refine .of_continues fun rest ts hRest body ds n hOwed hBody hRun => ?_
    obtain rfl : n = 0 := by omega
    subst hOwed
    have hLexes := continues_quoted hRest hBody (HexRun.digit hRun hDigit).chars
    simpa using hLexes
  · rename_i hMore
    obtain ⟨rfl, rfl⟩ := Prod.mk.inj hEq
    refine .of_continues fun rest ts hRest body ds n hOwed hBody hRun => ?_
    subst hOwed
    have hLexes := hRest body (ds ++ [u]) (n - 1) (by omega) hBody (.digit hRun hDigit)
    simpa using hLexes

theorem brings_scanUnit {s s' : Scan} {out out' : List Token} {u : UInt16}
    (h : scanUnit s out u = some (s', out')) : Brings s out u s' out' := by
  cases s with
  | between =>
    obtain ⟨rfl, rfl⟩ := Prod.mk.inj (Option.some.inj h)
    exact brings_scanBetween out u
  | word w =>
    rw [scanUnit] at h
    split at h
    · obtain ⟨v, hWord, hEq⟩ := Option.map_eq_some_iff.mp h
      obtain ⟨rfl, rfl⟩ := Prod.mk.inj hEq
      exact brings_word hWord
    · obtain ⟨rfl, rfl⟩ := Prod.mk.inj (Option.some.inj h)
      refine .of_continues fun rest ts h => ?_
      rw [Continues, List.reverse_cons, List.append_assoc] at h
      exact h
  | quoted t => exact brings_quoted h
  | escaped t => exact brings_escaped h
  | hex t owed value => exact brings_hex h

theorem lexes_of_scanEnd {s : Scan} {out ts : List Token} (h : scanEnd s out = some ts) :
    ∃ new, ts = out.reverse ++ new ∧ Continues [] new s := by
  cases s with
  | between =>
    exact ⟨[], by simpa using (Option.some.inj h).symm, .nil fun u hu => absurd hu List.not_mem_nil⟩
  | word w =>
    obtain ⟨v, hWord, rfl⟩ := Option.map_eq_some_iff.mp h
    refine ⟨[.scalar v], List.reverse_cons, ?_⟩
    exact Lexes.token (.scalar (word?_eq_some_iff.mp hWord))
      (.nil fun u hu => absurd hu List.not_mem_nil)
  | quoted | escaped | hex => exact absurd h (by simp [scanEnd])

theorem lexes_of_scan {s : Scan} {out ts : List Token} {t : Text}
    (h : scan s out t = some ts) : ∃ new, ts = out.reverse ++ new ∧ Continues t new s := by
  induction t generalizing s out with
  | nil => exact lexes_of_scanEnd h
  | cons u rest ih =>
    rw [scan] at h
    split at h
    · exact absurd h (by simp)
    · rename_i s' out' hUnit
      obtain ⟨brought, rfl, hContinues⟩ := brings_scanUnit hUnit
      obtain ⟨new, rfl, hRest⟩ := ih h
      exact ⟨brought ++ new, by simp, hContinues rest new hRest⟩

theorem tokens?_eq_some_iff {t : Text} {ts : List Token} (hApart : Apart ts) :
    tokens? t = some ts ↔ Lexes t ts := by
  constructor
  · intro h
    obtain ⟨new, rfl, hLexes⟩ := lexes_of_scan h
    exact hLexes
  · intro h
    exact scan_of_lexes h hApart []

end Enroll.Json
