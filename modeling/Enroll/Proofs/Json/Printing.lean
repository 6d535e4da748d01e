import Enroll.Json.Printer
import Enroll.Proofs.Json.Lexing
import Enroll.Proofs.Text.Units

/-!
# What is printed

A string is printed as a token that denotes it, whatever units it has, and no surrogate of the
printed text is without its partner.
-/

namespace Enroll.Json

open Text (Paired isSurrogate isLead isTrail)

/-! ## Strings -/

/-- What is printed of a string between its quotes. -/
def quoted (t : Text) : Text := (quoteOnto [] t).reverse

theorem quoteOnto_eq : ∀ out t : Text, quoteOnto out t = (quoted t).reverse ++ out
  | out, [] => rfl
  | out, [u] => by simp [quoted, quoteOnto]
  | out, u :: v :: rest => by
    rw [quoted, quoteOnto, quoteOnto]
    split
    · rw [quoteOnto_eq (v :: u :: out), quoteOnto_eq [v, u]]
      simp
    · rw [quoteOnto_eq ((quoteUnit u).reverse ++ out), quoteOnto_eq ((quoteUnit u).reverse ++ [])]
      simp

theorem quoted_pair {u v : UInt16} (hLead : isLead u) (hTrail : isTrail v) (rest : Text) :
    quoted (u :: v :: rest) = u :: v :: quoted rest := by
  rw [quoted, quoteOnto, if_pos (by simp [hLead, hTrail]), quoteOnto_eq]
  simp

theorem quoted_lone {u : UInt16} {rest : Text}
    (h : ∀ v ∈ rest.head?, (isLead u && isTrail v) = false) :
    quoted (u :: rest) = quoteUnit u ++ quoted rest := by
  cases rest with
  | nil => simp [quoted, quoteOnto]
  | cons v rest =>
    have hLone : (isLead u && isTrail v) = false := h v rfl
    rw [quoted, quoteOnto, hLone, if_neg Bool.false_ne_true, quoteOnto_eq]
    simp

theorem hexDigit_hexDigit {n : Nat} (h : n < 16) : HexDigit (Text.hexDigit n) n := by
  have hRead : ∀ n, n < 16 → Literal.radixDigit? 16 (Text.hexDigit n) = some n := by decide
  exact radixDigit?_eq_some_iff.mp (hRead n h)

theorem chars_hexEscape (u : UInt16) : Chars (Text.hexEscape u) [u] := by
  have hLess := u.toNat_lt
  have hValue : ((u.toNat / 0x1000 * 16 + u.toNat / 0x100 % 16) * 16 + u.toNat / 0x10 % 16) * 16 +
      u.toNat % 16 = u.toNat := by omega
  have hChars := Chars.hex (hexDigit_hexDigit (n := u.toNat / 0x1000) (by omega))
    (hexDigit_hexDigit (n := u.toNat / 0x100 % 16) (by omega))
    (hexDigit_hexDigit (n := u.toNat / 0x10 % 16) (by omega))
    (hexDigit_hexDigit (n := u.toNat % 16) (by omega)) .nil
  rw [hValue] at hChars
  simpa [Text.hexEscape] using hChars

/-- A unit is printed by the letter of an escape, by its number, or as it is. -/
theorem quoteUnit_cases (u : UInt16) :
    (∃ e, Escape e u ∧ isSurrogate e = false ∧ quoteUnit u = [0x5C, e]) ∨
      quoteUnit u = Text.hexEscape u ∨
      Unescaped u ∧ isSurrogate u = false ∧ quoteUnit u = [u] := by
  unfold quoteUnit
  split_ifs with h₁ h₂ h₃ h₄ h₅ h₆ h₇ h₈
  · exact .inl ⟨0x22, beq_iff_eq.mp h₁ ▸ .quote, rfl, rfl⟩
  · exact .inl ⟨0x5C, beq_iff_eq.mp h₂ ▸ .backslash, rfl, rfl⟩
  · exact .inl ⟨0x62, beq_iff_eq.mp h₃ ▸ .backspace, rfl, rfl⟩
  · exact .inl ⟨0x66, beq_iff_eq.mp h₄ ▸ .formFeed, rfl, rfl⟩
  · exact .inl ⟨0x6E, beq_iff_eq.mp h₅ ▸ .lineFeed, rfl, rfl⟩
  · exact .inl ⟨0x72, beq_iff_eq.mp h₆ ▸ .carriageReturn, rfl, rfl⟩
  · exact .inl ⟨0x74, beq_iff_eq.mp h₇ ▸ .tab, rfl, rfl⟩
  · exact .inr (.inl rfl)
  · simp only [Bool.or_eq_true, decide_eq_true_eq, not_or, Bool.not_eq_true,
      UInt16.lt_iff_toNat_lt] at h₈
    exact .inr (.inr ⟨⟨not_lt.mp h₈.1, by simpa using h₁, by simpa using h₂⟩, h₈.2, rfl⟩)

theorem paired_of_units {t : Text} (h : ∀ u ∈ t, isSurrogate u = false) : t.Paired := by
  induction t with
  | nil => exact .nil
  | cons u rest ih =>
    exact .unit (h u List.mem_cons_self) (ih fun v hv => h v (List.mem_cons_of_mem u hv))

theorem isSurrogate_hexDigit {n : Nat} (h : n < 16) : isSurrogate (Text.hexDigit n) = false := by
  have hAll : ∀ n, n < 16 → isSurrogate (Text.hexDigit n) = false := by decide
  exact hAll n h

theorem paired_hexEscape (u : UInt16) : (Text.hexEscape u).Paired := by
  have hLess := u.toNat_lt
  refine paired_of_units fun v hv => ?_
  simp only [Text.hexEscape, List.mem_cons, List.not_mem_nil, or_false] at hv
  rcases hv with rfl | rfl | rfl | rfl | rfl | rfl
  · rfl
  · rfl
  · exact isSurrogate_hexDigit (by omega)
  · exact isSurrogate_hexDigit (by omega)
  · exact isSurrogate_hexDigit (by omega)
  · exact isSurrogate_hexDigit (by omega)

theorem quoteUnit_spec (u : UInt16) : Chars (quoteUnit u) [u] ∧ (quoteUnit u).Paired := by
  rcases quoteUnit_cases u with ⟨e, hEscape, hUnit, hQuoted⟩ | hQuoted | ⟨hUnescaped, hUnit, hQuoted⟩
  · rw [hQuoted]
    exact ⟨.escape hEscape .nil, .unit rfl (.unit hUnit .nil)⟩
  · rw [hQuoted]
    exact ⟨chars_hexEscape u, paired_hexEscape u⟩
  · rw [hQuoted]
    exact ⟨.unescaped hUnescaped .nil, .unit hUnit .nil⟩

theorem unescaped_of_surrogate {u : UInt16} (h : 0xD800 ≤ u.toNat) : Unescaped u := by
  refine ⟨by omega, ?_, ?_⟩
  · rintro rfl
    exact absurd h (by decide)
  · rintro rfl
    exact absurd h (by decide)

theorem quoted_spec : ∀ t : Text, Chars (quoted t) t ∧ (quoted t).Paired
  | [] => ⟨.nil, .nil⟩
  | [u] => by
    rw [quoted_lone (by simp)]
    exact ⟨(quoteUnit_spec u).1.append .nil, (quoteUnit_spec u).2.append .nil⟩
  | u :: v :: rest => by
    by_cases hPair : isLead u && isTrail v
    · obtain ⟨hLead, hTrail⟩ := Bool.and_eq_true_iff.mp hPair
      obtain ⟨hChars, hPaired⟩ := quoted_spec rest
      have hu := unescaped_of_surrogate (Text.isLead_iff.mp hLead).1
      have hv := unescaped_of_surrogate (u := v) (by
        have hLow := (Text.isTrail_iff.mp hTrail).1
        omega)
      rw [quoted_pair hLead hTrail]
      exact ⟨.unescaped hu (.unescaped hv hChars), .pair hLead hTrail hPaired⟩
    · obtain ⟨hChars, hPaired⟩ := quoted_spec (v :: rest)
      rw [quoted_lone (by simpa using hPair)]
      exact ⟨(quoteUnit_spec u).1.append hChars, (quoteUnit_spec u).2.append hPaired⟩

theorem text_string (t : Text) : text (.string t) = 0x22 :: (quoted t ++ [0x22]) := by
  rw [text, writeOnto, stringOnto, quoteOnto_eq]
  simp

theorem spells_text_string (t : Text) : Spells (.string t) (text (.string t)) := by
  rw [text_string]
  exact .string (quoted_spec t).1

theorem paired_text_string (t : Text) : (text (.string t)).Paired := by
  rw [text_string]
  exact .unit rfl ((quoted_spec t).2.append (.unit rfl .nil))

/-! ## Values -/

theorem separate_eq (first : Bool) (out : Text) : separate first out = separate first [] ++ out := by
  cases first <;> rfl

theorem stringOnto_eq (out t : Text) : stringOnto out t = stringOnto [] t ++ out := by
  rw [stringOnto, stringOnto, quoteOnto_eq, quoteOnto_eq [0x22]]
  simp

mutual

theorem writeOnto_eq (out : Text) : ∀ v : Json, writeOnto out v = writeOnto [] v ++ out
  | .null | .bool true | .bool false => rfl
  | .number x => by simp [writeOnto]
  | .string t => by rw [writeOnto, writeOnto, stringOnto_eq]
  | .array xs => by
    rw [writeOnto, writeOnto, elementsOnto_eq true (0x5B :: out), elementsOnto_eq true [0x5B]]
    simp
  | .object ms => by
    rw [writeOnto, writeOnto, membersOnto_eq true (0x7B :: out), membersOnto_eq true [0x7B]]
    simp

theorem elementsOnto_eq (first : Bool) (out : Text) :
    ∀ xs : List Json, elementsOnto first out xs = elementsOnto first [] xs ++ out
  | [] => rfl
  | x :: xs => by
    rw [elementsOnto, elementsOnto, elementsOnto_eq false (writeOnto (separate first out) x),
      elementsOnto_eq false (writeOnto (separate first []) x), writeOnto_eq (separate first out),
      writeOnto_eq (separate first []), separate_eq first out]
    simp

theorem membersOnto_eq (first : Bool) (out : Text) :
    ∀ ms : List (Text × Json), membersOnto first out ms = membersOnto first [] ms ++ out
  | [] => rfl
  | (k, x) :: ms => by
    rw [membersOnto, membersOnto,
      membersOnto_eq false (writeOnto (0x3A :: stringOnto (separate first out) k) x),
      membersOnto_eq false (writeOnto (0x3A :: stringOnto (separate first []) k) x),
      writeOnto_eq (0x3A :: stringOnto (separate first out) k),
      writeOnto_eq (0x3A :: stringOnto (separate first []) k), stringOnto_eq (separate first out),
      stringOnto_eq (separate first []), separate_eq first out]
    simp

end

/-- What is printed of the elements between the brackets. -/
def elementsText (first : Bool) (xs : List Json) : Text := (elementsOnto first [] xs).reverse

theorem text_array (xs : List Json) : text (.array xs) = 0x5B :: (elementsText true xs ++ [0x5D]) := by
  rw [text, writeOnto, elementsOnto_eq, elementsText]
  simp

@[simp] theorem elementsText_nil (first : Bool) : elementsText first [] = [] := rfl

theorem elementsText_cons (first : Bool) (x : Json) (xs : List Json) :
    elementsText first (x :: xs) = separate first [] ++ (text x ++ elementsText false xs) := by
  rw [elementsText, elementsOnto, elementsOnto_eq, writeOnto_eq, elementsText, text]
  cases first <;> simp [separate]

/-- What is printed of the members between the braces. -/
def membersText (first : Bool) (ms : Members) : Text := (membersOnto first [] ms).reverse

theorem text_object (ms : Members) :
    text (.object ms) = 0x7B :: (membersText true ms ++ [0x7D]) := by
  rw [text, writeOnto, membersOnto_eq, membersText]
  simp

@[simp] theorem membersText_nil (first : Bool) : membersText first [] = [] := rfl

theorem membersText_cons (first : Bool) (k : Text) (v : Json) (ms : Members) :
    membersText first ((k, v) :: ms) = separate first [] ++
      (text (.string k) ++ 0x3A :: (text v ++ membersText false ms)) := by
  rw [membersText, membersOnto, membersOnto_eq, writeOnto_eq, stringOnto_eq, membersText, text, text,
    writeOnto]
  cases first <;> simp [separate]

end Enroll.Json
