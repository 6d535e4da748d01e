import Enroll.Proofs.Json.NumeralText
import Enroll.Proofs.Json.Order
import Enroll.Proofs.Json.Printing
import Enroll.Proofs.Json.Reading
import Enroll.Text.Utf8

/-!
# Printing and reading

The compact text of a value in order is JSON, and what it denotes is the value itself, but for what
has no text of its own: the sign of zero and the numbers that are not finite.
-/

namespace Enroll.Json

open Text (Paired isSurrogate)

/-! ## What is lost in print -/

mutual

/-- A value as it is once it is printed and read. -/
def printed : Json → Json
  | .number x => x.printed
  | .array xs => .array (printedElements xs)
  | .object ms => .object (printedMembers ms)
  | .null => .null
  | .bool b => .bool b
  | .string t => .string t

def printedElements : List Json → List Json
  | [] => []
  | x :: xs => printed x :: printedElements xs

def printedMembers : List (Text × Json) → List (Text × Json)
  | [] => []
  | (k, x) :: ms => (k, printed x) :: printedMembers ms

end

theorem keys_printedMembers (ms : Members) : Members.keys (printedMembers ms) = Members.keys ms := by
  induction ms with
  | nil => rfl
  | cons m rest ih =>
    rw [printedMembers, Members.keys, List.map_cons, ← Members.keys, ih]
    rfl

theorem inOrder_printedMembers {ms : Members} (h : Members.InOrder ms) :
    Members.InOrder (printedMembers ms) := by
  rw [Members.InOrder, keys_printedMembers]
  exact h

/-! ## Compact texts -/

/-- The tokens of a text without white space, in which no surrogate is without its partner. -/
inductive Compact : Text → List Token → Prop where
  | nil : Compact [] []
  | cons {w t : Text} {token : Token} {tokens : List Token} (hToken : Spells token w)
    (hPaired : w.Paired) (hRest : Compact t tokens) : Compact (w ++ t) (token :: tokens)

variable {t t' w : Text} {ts ts' : List Token} {token : Token} {v : Json}

theorem Compact.append (h : Compact t ts) (h' : Compact t' ts') : Compact (t ++ t') (ts ++ ts') := by
  induction h with
  | nil => exact h'
  | cons hToken hPaired _ ih =>
    rw [List.append_assoc]
    exact .cons hToken hPaired ih

theorem Compact.unit {u : UInt16} (hToken : Spells token [u]) (hUnit : isSurrogate u = false)
    (h : Compact t ts) : Compact (u :: t) (token :: ts) :=
  .cons hToken (.unit hUnit .nil) h

theorem Compact.single (hToken : Spells token w) (hPaired : w.Paired) : Compact w [token] := by
  have hSingle := Compact.cons hToken hPaired .nil
  rwa [List.append_nil] at hSingle

theorem Compact.lexes (h : Compact t ts) : Lexes t ts := by
  induction h with
  | nil => exact .nil fun u hu => absurd hu List.not_mem_nil
  | cons hToken _ _ ih => exact Lexes.token hToken ih

theorem Compact.paired (h : Compact t ts) : t.Paired := by
  induction h with
  | nil => exact .nil
  | cons _ hPaired _ ih => exact hPaired.append ih

theorem Escape.not_control {u v : UInt16} (h : Escape u v) : 0x20 ≤ u.toNat := by
  cases h <;> decide

theorem HexDigit.not_control {u : UInt16} {n : Nat} (h : HexDigit u n) : 0x20 ≤ u.toNat := by
  cases h with
  | decimal h | lower h | upper h => omega

theorem Chars.not_control {body : Text} (h : Chars body t) : ∀ u ∈ body, 0x20 ≤ u.toNat := by
  induction h with
  | nil => simp
  | unescaped hUnit _ ih => simpa using ⟨hUnit.1, ih⟩
  | escape hEscape _ ih => simpa using ⟨hEscape.not_control, ih⟩
  | hex ha hb hc hd _ ih =>
    simpa using ⟨ha.not_control, hb.not_control, hc.not_control, hd.not_control, ih⟩

theorem Spells.not_control (h : Spells token w) : ∀ u ∈ w, 0x20 ≤ u.toNat := by
  cases h with
  | string hChars => simpa [or_imp, forall_and] using hChars.not_control
  | scalar hWord => exact fun u hu => (hWord.units.2 u hu).2.1
  | _ => simp

theorem Compact.not_control (h : Compact t ts) : ∀ u ∈ t, 0x20 ≤ u.toNat := by
  induction h with
  | nil => exact fun u hu => absurd hu List.not_mem_nil
  | cons hToken _ _ ih =>
    intro u hu
    exact (List.mem_append.mp hu).elim (hToken.not_control u) (ih u)

/-- A token begins with an ASCII character. -/
theorem Spells.head (h : Spells token w) : ∃ u rest, w = u :: rest ∧ u.toNat < 0x80 := by
  cases h with
  | scalar hWord =>
    obtain ⟨hNonempty, hUnits⟩ := hWord.units
    obtain ⟨u, rest, rfl⟩ := List.exists_cons_of_ne_nil hNonempty
    exact ⟨u, rest, rfl, (hUnits u List.mem_cons_self).2.2⟩
  | _ => exact ⟨_, _, rfl, by decide⟩

/-- No mark is taken off a compact text. -/
theorem Compact.dropMark (h : Compact t ts) : Utf8.dropMark t = t := by
  cases h with
  | nil => rfl
  | cons hToken _ _ =>
    obtain ⟨u, rest, rfl, hLess⟩ := hToken.head
    have hOther : u ≠ Utf8.byteOrderMark := by
      rintro rfl
      exact absurd hLess (by decide)
    rw [List.cons_append, Utf8.dropMark, if_neg (by simpa using hOther)]

/-! ## Printing -/

/-- The text of a value is compact, and its tokens are those of the value in print. -/
def Prints (v : Json) : Prop := ∃ ts, Compact v.text ts ∧ Derives (.value v.printed) ts

theorem prints_word (hText : v.text = w) (hWord : Word w v.printed) : Prints v := by
  have hPaired : w.Paired := paired_of_units fun u hu => by
    rw [Text.isSurrogate_eq_false_iff]
    have hAscii := (hWord.units.2 u hu).2.2
    omega
  exact ⟨_, hText ▸ .single (.scalar hWord) hPaired, .scalar _⟩

theorem compact_string (k : Text) : Compact (text (.string k)) [.string k] :=
  .single (spells_text_string k) (paired_text_string k)

/-- Elements that follow others are printed with a comma before each of them. -/
theorem compact_elements {xs ys : List Json} {us : List Token} (hEach : ∀ x ∈ xs, Prints x)
    (hBefore : Derives (.elements ys) us) :
    ∃ ts, Compact (elementsText false xs) ts ∧
      Derives (.elements (ys ++ printedElements xs)) (us ++ ts) := by
  -- the grammar adds an element at the end, so those before are generalised
  induction xs generalizing ys us with
  | nil => exact ⟨[], .nil, by simpa [printedElements] using hBefore⟩
  | cons x xs ih =>
    obtain ⟨hFirst, hEach⟩ := List.forall_mem_cons.mp hEach
    obtain ⟨ts, hText, hDerives⟩ := hFirst
    obtain ⟨ts', hRest, hAll⟩ := ih hEach (.elements hBefore hDerives)
    refine ⟨.comma :: (ts ++ ts'), ?_, ?_⟩
    · rw [elementsText_cons]
      exact .unit .comma rfl (hText.append hRest)
    · simpa [printedElements] using hAll

theorem prints_array {xs : List Json} (hEach : ∀ x ∈ xs, Prints x) : Prints (.array xs) := by
  rw [Prints, text_array, printed]
  cases xs with
  | nil =>
    exact ⟨_, .unit .openArray rfl (.unit .closeArray rfl .nil), .emptyArray⟩
  | cons x xs =>
    obtain ⟨hFirst, hEach⟩ := List.forall_mem_cons.mp hEach
    obtain ⟨ts, hText, hDerives⟩ := hFirst
    obtain ⟨ts', hRest, hAll⟩ := compact_elements hEach (.element hDerives)
    refine ⟨_, .unit .openArray rfl (.append ?_ (.unit .closeArray rfl .nil)), .array hAll⟩
    rw [elementsText_cons]
    exact hText.append hRest

theorem compact_member (k : Text) (h : Compact v.text ts) (hRest : Compact t ts') :
    Compact (text (.string k) ++ 0x3A :: (v.text ++ t)) (.string k :: .colon :: (ts ++ ts')) :=
  (compact_string k).append (.unit .colon rfl (h.append hRest))

/-- Members that follow others are printed with a comma before each of them. -/
theorem compact_members {ms pairs : Members} {us : List Token} (hEach : ∀ m ∈ ms, Prints m.2)
    (hBefore : Derives (.members pairs) us) :
    ∃ ts, Compact (membersText false ms) ts ∧
      Derives (.members (pairs ++ printedMembers ms)) (us ++ ts) := by
  induction ms generalizing pairs us with
  | nil => exact ⟨[], .nil, by simpa [printedMembers] using hBefore⟩
  | cons m ms ih =>
    obtain ⟨k, v⟩ := m
    obtain ⟨hFirst, hEach⟩ := List.forall_mem_cons.mp hEach
    obtain ⟨ts, hText, hDerives⟩ := hFirst
    obtain ⟨ts', hRest, hAll⟩ := ih hEach (.members hBefore hDerives)
    refine ⟨.comma :: .string k :: .colon :: (ts ++ ts'), ?_, ?_⟩
    · rw [membersText_cons]
      exact .unit .comma rfl (compact_member k hText hRest)
    · simpa [printedMembers] using hAll

theorem prints_object {ms : Members} (hKeys : Members.InOrder ms) (hEach : ∀ m ∈ ms, Prints m.2) :
    Prints (.object ms) := by
  have hArranged := (inOrder_printedMembers hKeys).arranges
  rw [Prints, text_object, printed]
  cases ms with
  | nil =>
    exact ⟨_, .unit .openObject rfl (.unit .closeObject rfl .nil), .emptyObject⟩
  | cons m ms =>
    obtain ⟨k, v⟩ := m
    obtain ⟨hFirst, hEach⟩ := List.forall_mem_cons.mp hEach
    obtain ⟨ts, hText, hDerives⟩ := hFirst
    obtain ⟨ts', hRest, hAll⟩ := compact_members hEach (.member (k := k) hDerives)
    refine ⟨_, .unit .openObject rfl (.append ?_ (.unit .closeObject rfl .nil)),
      .object hAll hArranged⟩
    rw [membersText_cons]
    exact compact_member k hText hRest

theorem prints_of_ordered (h : v.Ordered) : Prints v := by
  induction h with
  | null => exact prints_word rfl .ofNull
  | bool b =>
    cases b with
    | true => exact prints_word rfl .ofTrue
    | false => exact prints_word rfl .ofFalse
  | number x => exact prints_word (by simp [text, writeOnto]) (Number.word_numberText x)
  | string t => exact ⟨_, compact_string t, .string t⟩
  | array _ ih => exact prints_array ih
  | object hKeys _ ih => exact prints_object hKeys ih

theorem denotes_text (h : v.Ordered) : Denotes v.text v.printed := by
  obtain ⟨ts, hText, hDerives⟩ := prints_of_ordered h
  exact ⟨ts, hText.lexes, hDerives⟩

end Enroll.Json
