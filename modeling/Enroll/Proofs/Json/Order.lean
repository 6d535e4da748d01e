import Enroll.Proofs.Json.Grammar

/-!
# Values in order

In a value that was read the keys of every object are distinct, and they stand in the order in which
an object keeps its keys: indices ascend and come before names. Members in this order arrange to
themselves, so writing them down in it changes nothing.
-/

namespace Enroll

namespace Members

/-! ## Members in order -/

/-- The members stand as they would if they were set one by one in their order. -/
def InOrder (ms : Members) : Prop := (keys ms).Pairwise (Precedes (keys ms))

theorem InOrder.nodup {ms : Members} (h : InOrder ms) : (keys ms).Nodup := h.imp Precedes.ne

theorem get?_of_mem {ms : Members} (hNodup : (keys ms).Nodup) {m : Text × Json} (hm : m ∈ ms) :
    get? ms m.1 = some m.2 := by
  induction ms with
  | nil => exact absurd hm List.not_mem_nil
  | cons m' rest ih =>
    obtain ⟨k, v⟩ := m'
    obtain ⟨hFresh, hNodup⟩ := List.nodup_cons.mp hNodup
    rw [get?_cons]
    rcases List.mem_cons.mp hm with rfl | hm
    · exact if_pos rfl
    · have hOther : k ≠ m.1 := fun hEq => hFresh (mem_keys_iff.mpr ⟨m, hm, hEq.symm⟩)
      rw [if_neg hOther]
      exact ih hNodup hm

theorem mem_of_get? {ms : Members} {key : Text} {v : Json} (h : get? ms key = some v) :
    (key, v) ∈ ms := by
  obtain ⟨m, hFind, rfl⟩ := Option.map_eq_some_iff.mp h
  have hKey := List.find?_some hFind
  obtain rfl := beq_iff_eq.mp hKey
  exact List.mem_of_find?_eq_some hFind

theorem get?_reverse {ms : Members} (hNodup : (keys ms).Nodup) (key : Text) :
    get? ms.reverse key = get? ms key := by
  have hNodup' : (keys ms.reverse).Nodup := by
    rw [keys, List.map_reverse]
    exact List.nodup_reverse.mpr hNodup
  cases h : get? ms key with
  | some v => exact get?_of_mem hNodup' (List.mem_reverse.mpr (mem_of_get? h))
  | none =>
    rw [get?_eq_none_iff] at h ⊢
    rwa [keys, List.map_reverse, List.mem_reverse]

/-- Of two distinct keys, the one that stands first appears first. -/
theorem Precedes.appear {a b : Text} {appearing ks : List Text} (h : Precedes appearing a b)
    (hFirst : ks.idxOf a < ks.idxOf b) : Precedes ks a b := by
  cases h with
  | indices ha hb hLess => exact .indices ha hb hLess
  | index ha hb => exact .index ha hb
  | names ha hb => exact .names ha hb hFirst

theorem Arranges.inOrder {pairs ms : Members} (h : Arranges pairs ms) : InOrder ms := by
  have hNodup := h.nodup
  -- no key is there twice, so where a key stands is where it first appears
  rw [InOrder, List.pairwise_iff_getElem]
  intro i j hi hj hLess
  have hPrecedes := List.pairwise_iff_getElem.mp h.ordered i j hi hj hLess
  refine hPrecedes.appear ?_
  rwa [hNodup.idxOf_getElem, hNodup.idxOf_getElem]

/-- Members are arranged out of pairs, so each of them stood among the pairs. -/
theorem Arranges.mem {pairs ms : Members} (h : Arranges pairs ms) {m : Text × Json}
    (hm : m ∈ ms) : m ∈ pairs := by
  have hValue := h.value m.1
  rw [get?_of_mem h.nodup hm] at hValue
  exact List.mem_reverse.mp (mem_of_get? hValue.symm)

theorem InOrder.arranges {ms : Members} (h : InOrder ms) : Arranges ms ms :=
  ⟨fun key => (get?_reverse h.nodup key).symm, h⟩

end Members

namespace Json

/-! ## Values in order -/

inductive Ordered : Json → Prop where
  | null : Ordered .null
  | bool (b : Bool) : Ordered (.bool b)
  | number (x : Number) : Ordered (.number x)
  | string (t : Text) : Ordered (.string t)
  | array {xs : List Json} (hElements : ∀ x ∈ xs, Ordered x) : Ordered (.array xs)
  | object {ms : Members} (hKeys : Members.InOrder ms) (hMembers : ∀ m ∈ ms, Ordered m.2) :
    Ordered (.object ms)

theorem Word.ordered {w : Text} {v : Json} (h : Word w v) : v.Ordered := by
  cases h with
  | ofNull => exact .null
  | ofTrue | ofFalse => exact .bool _
  | ofNumeral => exact .number _

theorem Lexes.exists_word {t : Text} {ts : List Token} (h : Lexes t ts) :
    ∀ v, Token.scalar v ∈ ts → ∃ w, Word w v := by
  induction h with
  | nil => exact fun v hv => absurd hv List.not_mem_nil
  | cons _ hToken _ ih =>
    intro v hv
    rcases List.mem_cons.mp hv with rfl | hv
    · cases hToken with
      | scalar hWord => exact ⟨_, hWord⟩
    · exact ih v hv

theorem Lexes.ordered {t : Text} {ts : List Token} (h : Lexes t ts) (v : Json)
    (hv : Token.scalar v ∈ ts) : v.Ordered := by
  obtain ⟨w, hWord⟩ := h.exists_word v hv
  exact hWord.ordered

def Phrase.Ordered : Phrase → Prop
  | .value v => v.Ordered
  | .elements xs => ∀ x ∈ xs, x.Ordered
  | .members pairs => ∀ m ∈ pairs, m.2.Ordered

theorem ordered_of_arranges {pairs ms : Members} (h : Members.Arranges pairs ms)
    (hPairs : ∀ m ∈ pairs, m.2.Ordered) : ∀ m ∈ ms, m.2.Ordered :=
  fun m hm => hPairs m (h.mem hm)

theorem Derives.ordered {phrase : Phrase} {ts : List Token} (h : Derives phrase ts)
    (hScalars : ∀ v, Token.scalar v ∈ ts → v.Ordered) : phrase.Ordered := by
  induction h with
  | string t => exact .string t
  | scalar v => exact hScalars v List.mem_cons_self
  | emptyArray => exact .array fun x hx => absurd hx List.not_mem_nil
  | array _ ih => exact .array (ih fun v hv => hScalars v (by simp [hv]))
  | emptyObject => exact .object .nil fun m hm => absurd hm List.not_mem_nil
  | object _ hArranged ih =>
    have hPairs := ih fun v hv => hScalars v (by simp [hv])
    exact .object hArranged.inOrder (ordered_of_arranges hArranged hPairs)
  | element _ ih =>
    intro x hx
    exact List.mem_singleton.mp hx ▸ ih hScalars
  | elements _ _ ihBefore ihLast =>
    have hBefore := ihBefore fun v hv => hScalars v (by simp [hv])
    have hLast := ihLast fun v hv => hScalars v (by simp [hv])
    intro x hx
    rcases List.mem_append.mp hx with hx | hx
    · exact hBefore x hx
    · exact List.mem_singleton.mp hx ▸ hLast
  | member _ ih =>
    intro m hm
    exact List.mem_singleton.mp hm ▸ ih fun v hv => hScalars v (by simp [hv])
  | members _ _ ihBefore ihLast =>
    have hBefore := ihBefore fun v hv => hScalars v (by simp [hv])
    have hLast := ihLast fun v hv => hScalars v (by simp [hv])
    intro m hm
    rcases List.mem_append.mp hm with hm | hm
    · exact hBefore m hm
    · exact List.mem_singleton.mp hm ▸ hLast

theorem Denotes.ordered {t : Text} {v : Json} (h : Denotes t v) : v.Ordered := by
  obtain ⟨ts, hLexes, hDerives⟩ := h
  exact hDerives.ordered hLexes.ordered

end Json

end Enroll
