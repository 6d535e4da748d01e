import Enroll.Json.Value
import Enroll.Proofs.Number.Digits
import Mathlib.Data.List.TakeWhile

/-!
# The members of an object

`Arranges` says what the members of an object are by the pairs it is written with: of a repeated key
the last value counts, and the order is that of the indices, then that in which the keys first
appear. `Members.setAll` gives just these.
-/

namespace Enroll.Members

/-! ## Indices -/

/-- The key is the numeral of an array index. -/
def IsIndex (key : Text) (i : Nat) : Prop := key = Text.ofNat i ∧ i ≤ 4294967294

theorem IsIndex.unique {key : Text} {i j : Nat} (hi : IsIndex key i) (hj : IsIndex key j) : i = j :=
  Text.ofNat_injective (hi.1.symm.trans hj.1)

theorem index?_eq_some_iff {key : Text} {i : Nat} : index? key = some i ↔ IsIndex key i := by
  constructor
  · intro h
    cases key with
    | nil => exact absurd h (by simp [index?])
    | cons u rest =>
      simp only [index?, Bool.and_eq_true, decide_eq_true_eq, Option.ite_none_right_eq_some,
        Option.some.injEq, List.all_eq_true, Bool.or_eq_true, bne_iff_ne, List.isEmpty_iff] at h
      obtain ⟨⟨⟨⟨⟨hDigit, hFirst⟩, -⟩, hRest⟩, hMost⟩, rfl⟩ := h
      exact ⟨(Text.ofNat_natOf hDigit hRest hFirst).symm, hMost⟩
  · rintro ⟨rfl, hMost⟩
    have hDigits := Text.isDigit_of_mem_ofNat i
    have hLength := Text.length_ofNat_le (n := i) (k := 10) (by omega) (by omega)
    have hValue := Text.natOf_ofNat i
    have hHead : (Text.ofNat i).head? = some 0x30 → (Text.ofNat i).length = 1 := by
      intro hZero
      rcases Nat.eq_zero_or_pos i with rfl | hPos
      · rfl
      · exact absurd hZero (Text.head_ofNat i hPos)
    obtain ⟨u, rest, hKey⟩ := List.exists_cons_of_ne_nil (Text.ofNat_ne_nil i)
    rw [hKey] at hDigits hLength hValue hHead ⊢
    have hFirst : u ≠ 0x30 ∨ rest = [] := by
      rcases eq_or_ne u 0x30 with rfl | hOther
      · exact .inr (by simpa using hHead rfl)
      · exact .inl hOther
    have hRest : rest.length < 10 := Nat.lt_of_succ_le hLength
    have hAll : ∀ v ∈ rest, Text.isDigit v := fun v hv => hDigits v (List.mem_cons_of_mem u hv)
    have hDigit := hDigits u List.mem_cons_self
    simp only [index?, hValue, Bool.and_eq_true, decide_eq_true_eq, Option.ite_none_right_eq_some,
      List.all_eq_true, Bool.or_eq_true, bne_iff_ne, List.isEmpty_iff, and_true]
    exact ⟨⟨⟨⟨hDigit, hFirst⟩, hRest⟩, hAll⟩, hMost⟩

def IsName (key : Text) : Prop := ∀ i, ¬IsIndex key i

theorem index?_eq_none_iff {key : Text} : index? key = none ↔ IsName key := by
  rw [Option.eq_none_iff_forall_ne_some]
  exact forall_congr' fun i => not_congr index?_eq_some_iff

/-! ## The order of the keys -/

def keys (ms : Members) : List Text := ms.map Prod.fst

theorem mem_keys_iff {ms : Members} {key : Text} : key ∈ keys ms ↔ ∃ m ∈ ms, m.1 = key :=
  List.mem_map

theorem mem_keys {ms : Members} {m : Text × Json} (hm : m ∈ ms) : m.1 ∈ keys ms :=
  mem_keys_iff.mpr ⟨m, hm, rfl⟩

/-- Indices ascend and come before names, which stand as they first appear. -/
inductive Precedes (appearing : List Text) : Text → Text → Prop where
  | indices {a b : Text} {i j : Nat} (ha : IsIndex a i) (hb : IsIndex b j) (hLess : i < j) :
    Precedes appearing a b
  | index {a b : Text} {i : Nat} (ha : IsIndex a i) (hb : IsName b) : Precedes appearing a b
  | names {a b : Text} (ha : IsName a) (hb : IsName b)
    (hFirst : appearing.idxOf a < appearing.idxOf b) : Precedes appearing a b

structure Arranges (pairs ms : Members) : Prop where
  value : ∀ key, get? ms key = get? pairs.reverse key
  ordered : (keys ms).Pairwise (Precedes (keys pairs))

variable {appearing : List Text} {a b c : Text}

theorem Precedes.trans (hab : Precedes appearing a b) (hbc : Precedes appearing b c) :
    Precedes appearing a c := by
  cases hab with
  | indices ha hb hLess =>
    cases hbc with
    | indices hb' hc hLess' =>
      have hSame := hb.unique hb'
      exact .indices ha hc (by omega)
    | index _ hc => exact .index ha hc
    | names hb' => exact absurd hb (hb' _)
  | index ha hb =>
    cases hbc with
    | indices hb' => exact absurd hb' (hb _)
    | index hb' => exact absurd hb' (hb _)
    | names _ hc => exact .index ha hc
  | names ha hb hFirst =>
    cases hbc with
    | indices hb' => exact absurd hb' (hb _)
    | index hb' => exact absurd hb' (hb _)
    | names _ hc hFirst' => exact .names ha hc (hFirst.trans hFirst')

theorem Precedes.ne (h : Precedes appearing a b) : a ≠ b := by
  rintro rfl
  cases h with
  | indices ha hb hLess => exact absurd (ha.unique hb) hLess.ne
  | index ha hb => exact hb _ ha
  | names _ _ hFirst => exact lt_irrefl _ hFirst

theorem Arranges.nodup {pairs ms : Members} (h : Arranges pairs ms) : (keys ms).Nodup :=
  h.ordered.imp Precedes.ne

/-! ## Looking up -/

@[simp] theorem get?_nil (key : Text) : get? [] key = none := rfl

theorem get?_cons (k : Text) (v : Json) (ms : Members) (key : Text) :
    get? ((k, v) :: ms) key = if k = key then some v else get? ms key := by
  by_cases hKey : k = key
  · simp [get?, hKey]
  · have hTest : (k == key) = false := by simpa using hKey
    rw [get?, List.find?_cons_of_neg (by simp [hTest]), if_neg hKey]
    rfl

theorem get?_append (ms ns : Members) (key : Text) :
    get? (ms ++ ns) key = (get? ms key).or (get? ns key) := by
  rw [get?, List.find?_append]
  unfold get?
  cases List.find? (fun m => m.1 == key) ms <;> rfl

theorem get?_eq_none_iff {ms : Members} {key : Text} : get? ms key = none ↔ key ∉ keys ms := by
  rw [get?, Option.map_eq_none_iff, List.find?_eq_none]
  constructor
  · intro h hMem
    obtain ⟨m, hm, hKey⟩ := mem_keys_iff.mp hMem
    exact h m hm (beq_iff_eq.mpr hKey)
  · intro h m hm hKey
    exact h (mem_keys_iff.mpr ⟨m, hm, beq_iff_eq.mp hKey⟩)

theorem has_iff {ms : Members} {key : Text} : has ms key ↔ key ∈ keys ms := by
  rw [has, List.any_eq_true, mem_keys_iff]
  exact exists_congr fun m => and_congr_right fun _ => beq_iff_eq

theorem eq_of_get? {ms ms' : Members} (hKeys : keys ms = keys ms') (hNodup : (keys ms).Nodup)
    (hValue : ∀ key, get? ms key = get? ms' key) : ms = ms' := by
  induction ms generalizing ms' with
  | nil => exact (List.map_eq_nil_iff.mp hKeys.symm).symm
  | cons m rest ih =>
    cases ms' with
    | nil => exact absurd hKeys (by simp [keys])
    | cons m' rest' =>
      obtain ⟨k, v⟩ := m
      obtain ⟨k', v'⟩ := m'
      obtain ⟨rfl, hRest⟩ := List.cons.inj hKeys
      obtain ⟨hFresh, hNodup⟩ := List.nodup_cons.mp hNodup
      have hHead := hValue k
      rw [get?_cons, get?_cons, if_pos rfl, if_pos rfl] at hHead
      obtain rfl := Option.some.inj hHead
      rw [ih hRest hNodup fun key => ?_]
      have hTail := hValue key
      rw [get?_cons, get?_cons] at hTail
      by_cases hKey : k = key
      · subst hKey
        have hFresh' : k ∉ keys rest' := by rwa [keys, ← hRest]
        exact (get?_eq_none_iff.mpr hFresh).trans (get?_eq_none_iff.mpr hFresh').symm
      · rwa [if_neg hKey, if_neg hKey] at hTail

/-! ## Setting one member -/

@[simp] theorem keys_replace (ms : Members) (key : Text) (v : Json) :
    keys (replace ms key v) = keys ms := by
  rw [keys, replace, List.map_map]
  refine List.map_congr_left fun m _ => ?_
  simp only [Function.comp_apply]
  split <;> rfl

theorem get?_replace (ms : Members) (k : Text) (v : Json) (key : Text) :
    get? (replace ms k v) key = if k = key then (get? ms key).map fun _ => v else get? ms key := by
  induction ms with
  | nil => simp [replace]
  | cons m rest ih =>
    obtain ⟨k', v'⟩ := m
    rw [get?_cons, replace, List.map_cons, ← replace]
    by_cases hHere : k' = k
    · rw [if_pos (beq_iff_eq.mpr hHere), get?_cons, ih]
      by_cases hKey : k' = key
      · have hSame : k = key := hHere.symm.trans hKey
        simp [hKey, hSame]
      · have hOther : k ≠ key := fun hEq => hKey (hHere.trans hEq)
        simp [hKey, hOther]
    · rw [if_neg (by simpa using hHere), get?_cons, ih]
      by_cases hKey : k' = key
      · have hOther : k ≠ key := fun hEq => hHere (hKey.trans hEq.symm)
        simp [hKey, hOther]
      · simp [hKey]

theorem insert_split (ms : Members) (k : Text) (v : Json) :
    ∃ front back, ms = front ++ back ∧ insert ms k v = front ++ (k, v) :: back := by
  unfold insert
  split
  · exact ⟨_, _, List.takeWhile_append_dropWhile.symm, rfl⟩
  · exact ⟨ms, [], (List.append_nil ms).symm, rfl⟩

theorem get?_insert {ms : Members} {k : Text} (v : Json) (hFresh : k ∉ keys ms) (key : Text) :
    get? (insert ms k v) key = if k = key then some v else get? ms key := by
  obtain ⟨front, back, rfl, hInsert⟩ := insert_split ms k v
  rw [hInsert, get?_append, get?_append, get?_cons]
  by_cases hKey : k = key
  · have hNone : get? front key = none := by
      rw [get?_eq_none_iff, ← hKey]
      intro hMem
      exact hFresh (by rw [keys, List.map_append]; exact List.mem_append_left _ hMem)
    simp [hKey, hNone]
  · simp [hKey]

theorem get?_set (ms : Members) (k : Text) (v : Json) (key : Text) :
    get? (set ms k v) key = if k = key then some v else get? ms key := by
  unfold set
  split
  · rename_i hHas
    rw [get?_replace]
    split
    · rename_i hKey
      obtain ⟨w, hw⟩ := Option.ne_none_iff_exists'.mp
        fun hNone => get?_eq_none_iff.mp hNone (hKey ▸ has_iff.mp hHas)
      rw [hw]
      rfl
    · rfl
  · rename_i hFresh
    exact get?_insert v (fun hMem => hFresh (has_iff.mpr hMem)) key

theorem setAll_concat (ms pairs : Members) (k : Text) (v : Json) :
    setAll ms (pairs ++ [(k, v)]) = set (setAll ms pairs) k v := by
  rw [setAll, List.foldl_append]
  rfl

theorem get?_setAll (pairs : Members) (key : Text) :
    get? (setAll [] pairs) key = get? pairs.reverse key := by
  induction pairs using List.reverseRecOn with
  | nil => rfl
  | append_singleton pairs m ih =>
    rw [setAll_concat, get?_set, List.reverse_append, List.reverse_singleton, List.singleton_append,
      get?_cons, ih]

/-! ## Order -/

theorem Precedes.later {more : List Text} (ha : a ∈ appearing) (hb : b ∈ appearing)
    (h : Precedes appearing a b) : Precedes (appearing ++ more) a b := by
  cases h with
  | indices hIndex hIndex' hLess => exact .indices hIndex hIndex' hLess
  | index hIndex hName => exact .index hIndex hName
  | names hName hName' hFirst =>
    refine .names hName hName' ?_
    rwa [List.idxOf_append_of_mem ha, List.idxOf_append_of_mem hb]

theorem Precedes.last (ha : a ∈ appearing) (hb : b ∉ appearing) (hName : IsName b) :
    Precedes (appearing ++ [b]) a b := by
  by_cases hIndex : IsName a
  · refine .names hIndex hName ?_
    rw [List.idxOf_append_of_mem ha, List.idxOf_append_of_notMem hb]
    exact Nat.lt_add_right _ (List.idxOf_lt_length_of_mem ha)
  · obtain ⟨i, hi⟩ := not_forall_not.mp hIndex
    exact .index hi hName

theorem precedes_iff {i : Nat} {m : Text × Json} : precedes i m ↔ ∃ j, IsIndex m.1 j ∧ j < i := by
  unfold precedes
  split
  · rename_i j hIndex
    rw [decide_eq_true_iff]
    have hj := index?_eq_some_iff.mp hIndex
    exact ⟨fun h => ⟨j, hj, h⟩, fun ⟨k, hk, h⟩ => hj.unique hk ▸ h⟩
  · rename_i hNone
    have hName := index?_eq_none_iff.mp hNone
    exact ⟨fun h => absurd h (by simp), fun ⟨j, hj, _⟩ => absurd hj (hName j)⟩

/-- A new index comes right behind the smaller ones. -/
theorem precedes_back {ms : Members} {k : Text} {i : Nat} (hIndex : IsIndex k i)
    (hSorted : (keys ms).Pairwise (Precedes appearing)) (hFresh : k ∉ keys ms)
    (hHead : ∀ m ∈ ms.head?, precedes i m = false) : ∀ b ∈ keys ms, Precedes appearing k b := by
  cases ms with
  | nil => exact fun b hb => absurd hb List.not_mem_nil
  | cons m rest =>
    have hFirst : Precedes appearing k m.1 := by
      by_cases hName : IsName m.1
      · exact .index hIndex hName
      · obtain ⟨j, hj⟩ := not_forall_not.mp hName
        have hNotLess : ¬j < i := fun hLess => by
          have hBefore := precedes_iff.mpr ⟨j, hj, hLess⟩
          rw [hHead m rfl] at hBefore
          exact Bool.false_ne_true hBefore
        have hOther : j ≠ i := by
          rintro rfl
          exact hFresh (hIndex.1.trans hj.1.symm ▸ List.mem_cons_self)
        exact .indices hIndex hj (by omega)
    intro b hb
    rcases List.mem_cons.mp hb with rfl | hb
    · exact hFirst
    · exact hFirst.trans (List.rel_of_pairwise_cons hSorted hb)

theorem head?_dropWhile {i : Nat} (ms : Members) :
    ∀ m ∈ (ms.dropWhile (precedes i)).head?, precedes i m = false := by
  intro m hm
  have hHead := List.head?_dropWhile_not (precedes i) ms
  rw [Option.mem_def.mp hm] at hHead
  exact hHead

theorem pairwise_insert {ms : Members} {k : Text} (v : Json)
    (hSorted : (keys ms).Pairwise (Precedes appearing)) (hFresh : k ∉ keys ms)
    (hLast : IsName k → ∀ a ∈ keys ms, Precedes appearing a k) :
    (keys (insert ms k v)).Pairwise (Precedes appearing) := by
  unfold insert
  split
  · rename_i i hIndex
    rw [index?_eq_some_iff] at hIndex
    have hSplit : keys ms =
        keys (ms.takeWhile (precedes i)) ++ keys (ms.dropWhile (precedes i)) := by
      rw [keys, keys, keys, ← List.map_append, List.takeWhile_append_dropWhile]
    rw [hSplit] at hSorted hFresh
    obtain ⟨hFront, hBack, hAcross⟩ := List.pairwise_append.mp hSorted
    rw [keys, List.map_append, List.map_cons]
    have hBehind := precedes_back hIndex hBack (fun h => hFresh (List.mem_append_right _ h))
      (head?_dropWhile ms)
    refine List.pairwise_append.mpr ⟨hFront, List.pairwise_cons.mpr ⟨hBehind, hBack⟩, ?_⟩
    intro a ha b hb
    rcases List.mem_cons.mp hb with rfl | hb
    · obtain ⟨m, hm, rfl⟩ := mem_keys_iff.mp ha
      obtain ⟨j, hj, hLess⟩ := precedes_iff.mp (List.mem_takeWhile_imp hm)
      exact .indices hj hIndex hLess
    · exact hAcross a ha b hb
  · rename_i hName
    rw [index?_eq_none_iff] at hName
    rw [keys, List.map_append]
    refine List.pairwise_append.mpr ⟨hSorted, List.pairwise_singleton _ _, ?_⟩
    intro a ha b hb
    obtain rfl := List.mem_singleton.mp hb
    exact hLast hName a ha

theorem mem_keys_setAll {pairs : Members} {key : Text} :
    key ∈ keys (setAll [] pairs) ↔ key ∈ keys pairs := by
  rw [← not_iff_not, ← get?_eq_none_iff, ← get?_eq_none_iff, get?_setAll, get?_eq_none_iff,
    get?_eq_none_iff, keys, List.map_reverse, List.mem_reverse, ← keys]

theorem pairwise_setAll (pairs : Members) :
    (keys (setAll [] pairs)).Pairwise (Precedes (keys pairs)) := by
  induction pairs using List.reverseRecOn with
  | nil => exact .nil
  | append_singleton pairs m ih =>
    obtain ⟨k, v⟩ := m
    have hKeys : keys (pairs ++ [(k, v)]) = keys pairs ++ [k] := List.map_append
    have hSorted : (keys (setAll [] pairs)).Pairwise (Precedes (keys pairs ++ [k])) :=
      ih.imp_of_mem fun ha hb h => h.later (mem_keys_setAll.mp ha) (mem_keys_setAll.mp hb)
    rw [setAll_concat, hKeys]
    unfold set
    split
    · rwa [keys_replace]
    · rename_i hHas
      have hFresh : k ∉ keys (setAll [] pairs) := fun hMem => hHas (has_iff.mpr hMem)
      refine pairwise_insert v hSorted hFresh fun hName a ha => ?_
      exact .last (mem_keys_setAll.mp ha) (fun hMem => hFresh (mem_keys_setAll.mpr hMem)) hName

theorem arranges_setAll (pairs : Members) : Arranges pairs (setAll [] pairs) :=
  ⟨get?_setAll pairs, pairwise_setAll pairs⟩

/-- Keys stand in one order only. -/
theorem eq_of_pairwise_precedes {ks ks' : List Text} (h : ks.Pairwise (Precedes appearing))
    (h' : ks'.Pairwise (Precedes appearing)) (hMem : ∀ key, key ∈ ks ↔ key ∈ ks') : ks = ks' := by
  have hPerm := (List.perm_ext_iff_of_nodup (h.imp Precedes.ne) (h'.imp Precedes.ne)).mpr hMem
  exact hPerm.eq_of_pairwise (fun a b _ _ hab hba => absurd rfl (hab.trans hba).ne) h h'

theorem Arranges.unique {pairs ms ms' : Members} (h : Arranges pairs ms) (h' : Arranges pairs ms') :
    ms = ms' := by
  have hMem : ∀ key, key ∈ keys ms ↔ key ∈ keys ms' := fun key => by
    rw [← not_iff_not, ← get?_eq_none_iff, ← get?_eq_none_iff, h.value, h'.value]
  have hKeys := eq_of_pairwise_precedes h.ordered h'.ordered hMem
  exact eq_of_get? hKeys h.nodup fun key => (h.value key).trans (h'.value key).symm

end Enroll.Members
