import Enroll.Proofs.Json.Order

/-!
# Spread members

What comes of setting the members of one object in another. Names merge: those that are there keep
their places and take the new values, and the new ones follow. Indices go before them. An object
whose keys are in order is settled by what its keys say and by the order of its names.
-/

namespace Enroll.Members

/-! ## Indices and names -/

/-- The members whose keys are chosen. -/
def restrict (p : Text → Bool) (ms : Members) : Members := ms.filter fun m => p m.1

def indexed : Members → Members := restrict fun key => (index? key).isSome

def named : Members → Members := restrict fun key => (index? key).isNone

theorem restrict_cons (p : Text → Bool) (m : Text × Json) (rest : Members) :
    restrict p (m :: rest) = if p m.1 then m :: restrict p rest else restrict p rest :=
  List.filter_cons

theorem mem_restrict_iff {p : Text → Bool} {ms : Members} {m : Text × Json} :
    m ∈ restrict p ms ↔ m ∈ ms ∧ p m.1 :=
  List.mem_filter

theorem keys_restrict_sublist (p : Text → Bool) (ms : Members) :
    (keys (restrict p ms)).Sublist (keys ms) :=
  List.filter_sublist.map Prod.fst

theorem isSome_index?_iff {key : Text} : (index? key).isSome ↔ ∃ i, IsIndex key i :=
  Option.isSome_iff_exists.trans (exists_congr fun _ => index?_eq_some_iff)

theorem isNone_index?_iff {key : Text} : (index? key).isNone ↔ IsName key :=
  Option.isNone_iff_eq_none.trans index?_eq_none_iff

theorem mem_indexed_iff {ms : Members} {m : Text × Json} :
    m ∈ indexed ms ↔ m ∈ ms ∧ ∃ i, IsIndex m.1 i := by
  rw [indexed, mem_restrict_iff, isSome_index?_iff]

theorem mem_named_iff {ms : Members} {m : Text × Json} :
    m ∈ named ms ↔ m ∈ ms ∧ IsName m.1 := by
  rw [named, mem_restrict_iff, isNone_index?_iff]

theorem mem_keys_indexed_iff {ms : Members} {key : Text} :
    key ∈ keys (indexed ms) ↔ key ∈ keys ms ∧ ∃ i, IsIndex key i := by
  constructor
  · intro hMem
    obtain ⟨m, hm, rfl⟩ := mem_keys_iff.mp hMem
    obtain ⟨hm, hIndex⟩ := mem_indexed_iff.mp hm
    exact ⟨mem_keys hm, hIndex⟩
  · rintro ⟨hMem, hIndex⟩
    obtain ⟨m, hm, rfl⟩ := mem_keys_iff.mp hMem
    exact mem_keys (mem_indexed_iff.mpr ⟨hm, hIndex⟩)

theorem notMem_keys_indexed (ms : Members) {key : Text} (hName : IsName key) :
    key ∉ keys (indexed ms) := by
  intro hMem
  obtain ⟨-, i, hi⟩ := mem_keys_indexed_iff.mp hMem
  exact hName i hi

theorem Precedes.isName {appearing : List Text} {a b : Text} (h : Precedes appearing a b)
    (ha : IsName a) : IsName b := by
  cases h with
  | indices hIndex => exact absurd hIndex (ha _)
  | index hIndex => exact absurd hIndex (ha _)
  | names _ hb => exact hb

theorem indexed_append_named_of_pairwise {appearing : List Text} {ms : Members}
    (h : (keys ms).Pairwise (Precedes appearing)) : indexed ms ++ named ms = ms := by
  induction ms with
  | nil => rfl
  | cons m rest ih =>
    obtain ⟨hFirst, hRest⟩ := List.pairwise_cons.mp h
    by_cases hName : IsName m.1
    · -- behind a name there are only names
      have hNames : ∀ m' ∈ m :: rest, IsName m'.1 := by
        intro m' hm'
        rcases List.mem_cons.mp hm' with rfl | hm'
        · exact hName
        · exact (hFirst m'.1 (mem_keys hm')).isName hName
      have hIndexed : indexed (m :: rest) = [] := List.filter_eq_nil_iff.mpr fun m' hm' hIndex => by
        obtain ⟨i, hi⟩ := isSome_index?_iff.mp hIndex
        exact hNames m' hm' i hi
      have hNamed : named (m :: rest) = m :: rest :=
        List.filter_eq_self.mpr fun m' hm' => isNone_index?_iff.mpr (hNames m' hm')
      rw [hIndexed, hNamed, List.nil_append]
    · have hIndex : ∃ i, IsIndex m.1 i := not_forall_not.mp hName
      rw [indexed, restrict_cons, if_pos (isSome_index?_iff.mpr hIndex), named, restrict_cons,
        if_neg fun h => hName (isNone_index?_iff.mp h), List.cons_append]
      exact congrArg (m :: ·) (ih hRest)

theorem InOrder.indexed_append_named {ms : Members} (h : InOrder ms) :
    indexed ms ++ named ms = ms :=
  indexed_append_named_of_pairwise h

theorem InOrder.setAll {ms : Members} (h : InOrder ms) : Members.setAll [] ms = ms :=
  (arranges_setAll ms).unique h.arranges

/-! ## One name -/

theorem insert_of_name (ms : Members) {key : Text} (v : Json) (hName : IsName key) :
    insert ms key v = ms ++ [(key, v)] := by
  rw [insert, index?_eq_none_iff.mpr hName]

theorem replace_of_notMem {ms : Members} {key : Text} (v : Json) (h : key ∉ keys ms) :
    replace ms key v = ms := by
  refine (List.map_congr_left fun m hm => ?_).trans (List.map_id ms)
  have hOther : m.1 ≠ key := fun hEq => h (mem_keys_iff.mpr ⟨m, hm, hEq⟩)
  rw [if_neg (by simpa using hOther), id]

theorem has_append (ms ns : Members) (key : Text) :
    has (ms ++ ns) key = (has ms key || has ns key) :=
  List.any_append

/-- What stands before the place of a name counts only if the name is there. -/
theorem set_append {front : Members} (back : Members) {key : Text} (v : Json)
    (hName : IsName key) (hFresh : key ∉ keys front) :
    set (front ++ back) key v = front ++ set back key v := by
  have hFront : has front key = false := Bool.eq_false_iff.mpr fun h => hFresh (has_iff.mp h)
  rw [set, set, has_append, hFront, Bool.false_or]
  split
  · rw [replace, List.map_append, ← replace, ← replace, replace_of_notMem v hFresh]
  · rw [insert_of_name _ v hName, insert_of_name _ v hName, List.append_assoc]

theorem setAll_append (ms ns ns' : Members) : setAll ms (ns ++ ns') = setAll (setAll ms ns) ns' :=
  List.foldl_append

theorem setAll_append_of_names {front back ns : Members} (hNames : ∀ n ∈ ns, IsName n.1)
    (hFresh : ∀ n ∈ ns, n.1 ∉ keys front) :
    setAll (front ++ back) ns = front ++ setAll back ns := by
  induction ns generalizing back with
  | nil => rfl
  | cons n rest ih =>
    rw [List.forall_mem_cons] at hNames hFresh
    have hFirst := set_append back n.2 hNames.1 hFresh.1
    exact (congrArg (fun ms => setAll ms rest) hFirst).trans (ih hNames.2 hFresh.2)

/-! ## Names merge -/

/-- The first members with the values that the others give to their keys, then what is new. -/
def merge (ms ns : Members) : Members :=
  ms.map (fun m => (m.1, (get? ns m.1).getD m.2)) ++ ns.filter fun n => !has ms n.1

theorem get?_concat_self {ns : Members} {key : Text} (v : Json) (hFresh : key ∉ keys ns) :
    get? (ns ++ [(key, v)]) key = some v := by
  rw [get?_append, get?_eq_none_iff.mpr hFresh, get?_cons, if_pos rfl, Option.none_or]

theorem get?_concat_of_ne {ns : Members} {key other : Text} (v : Json) (h : key ≠ other) :
    get? (ns ++ [(key, v)]) other = get? ns other := by
  rw [get?_append, get?_cons, if_neg h, get?_nil, Option.or_none]

theorem notMem_keys_fresh (ms : Members) {ns : Members} {key : Text} (h : key ∉ keys ns) :
    key ∉ keys (ns.filter fun n => !has ms n.1) := by
  intro hMem
  obtain ⟨n, hn, rfl⟩ := mem_keys_iff.mp hMem
  exact h (mem_keys (List.mem_of_mem_filter hn))

theorem keys_merge (ms ns : Members) :
    keys (merge ms ns) = keys ms ++ keys (ns.filter fun n => !has ms n.1) := by
  simp [merge, keys]

/-- One more name in a merge takes its value where it stands, or stands last. -/
theorem set_merge (ms : Members) {ns : Members} {key : Text} (v : Json) (hName : IsName key)
    (hFresh : key ∉ keys ns) : set (merge ms ns) key v = merge ms (ns ++ [(key, v)]) := by
  have hNew := notMem_keys_fresh ms hFresh
  have hHas : has (merge ms ns) key = has ms key := by
    rw [Bool.eq_iff_iff, has_iff, has_iff, keys_merge, List.mem_append, or_iff_left hNew]
  rw [set, hHas]
  split
  · rename_i hThere
    rw [merge, merge, replace, List.map_append, ← replace, ← replace, replace_of_notMem v hNew,
      List.filter_append, List.filter_singleton, hThere, replace, List.map_map]
    refine congrArg₂ (· ++ ·) (List.map_congr_left fun m _ => ?_) (List.append_nil _).symm
    by_cases hKey : m.1 = key
    · simp [hKey, get?_concat_self v hFresh]
    · simp [hKey, get?_concat_of_ne v (Ne.symm hKey)]
  · rename_i hAbsent
    have hValues : ∀ m ∈ ms, get? (ns ++ [(key, v)]) m.1 = get? ns m.1 := fun m hm =>
      get?_concat_of_ne v fun hEq => hAbsent (has_iff.mpr (hEq ▸ mem_keys hm))
    have hLast : (!has ms key) = true := by simpa using hAbsent
    rw [insert_of_name _ v hName, merge, merge, List.filter_append, List.filter_singleton, hLast,
      List.append_assoc]
    exact congrArg (· ++ _) (List.map_congr_left fun m hm => by rw [hValues m hm])

theorem setAll_eq_merge (ms : Members) {ns : Members} (hNames : ∀ n ∈ ns, IsName n.1)
    (hNodup : (keys ns).Nodup) : setAll ms ns = merge ms ns := by
  induction ns using List.reverseRecOn with
  | nil => simp [setAll, merge]
  | append_singleton ns n ih =>
    obtain ⟨key, v⟩ := n
    have hKeys : keys (ns ++ [(key, v)]) = keys ns ++ [key] := List.map_append
    rw [hKeys, List.nodup_append] at hNodup
    have hFresh : key ∉ keys ns := fun h => hNodup.2.2 key h key (List.mem_singleton_self key) rfl
    have hMerged := ih (fun n hn => hNames n (List.mem_append_left _ hn)) hNodup.1
    have hName := hNames (key, v) (List.mem_append_right _ (List.mem_singleton_self _))
    rw [setAll_concat, hMerged, set_merge ms v hName hFresh]

theorem get?_restrict {p : Text → Bool} (ms : Members) {key : Text} (h : p key) :
    get? (restrict p ms) key = get? ms key := by
  induction ms with
  | nil => rfl
  | cons m rest ih =>
    obtain ⟨k, v⟩ := m
    rw [restrict_cons, get?_cons]
    split
    · rw [get?_cons, ih]
    · rename_i hLeft
      have hOther : k ≠ key := fun hEq => hLeft (hEq ▸ h)
      rw [if_neg hOther, ih]

theorem has_restrict {p : Text → Bool} (ms : Members) {key : Text} (h : p key) :
    has (restrict p ms) key = has ms key := by
  rw [Bool.eq_iff_iff, has_iff, has_iff, ← not_iff_not, ← get?_eq_none_iff, ← get?_eq_none_iff,
    get?_restrict ms h]

variable {p : Text → Bool} {ns : Members}

/-- Choosing keys before a merge or after it is the same if all that is set is chosen. -/
theorem restrict_merge (ms : Members) (h : ∀ n ∈ ns, p n.1) :
    restrict p (merge ms ns) = merge (restrict p ms) ns := by
  have hNew : (ns.filter fun n => !has ms n.1).filter (fun n => p n.1) =
      ns.filter fun n => !has (restrict p ms) n.1 := by
    rw [List.filter_eq_self.mpr fun n hn => h n (List.mem_of_mem_filter hn)]
    exact List.filter_congr fun n hn => by rw [has_restrict ms (h n hn)]
  rw [merge, merge, restrict, List.filter_append, List.filter_map, hNew]
  rfl

theorem restrict_merge_of_not (ms : Members) (h : ∀ n ∈ ns, ¬p n.1) :
    restrict p (merge ms ns) = restrict p ms := by
  have hNew : (ns.filter fun n => !has ms n.1).filter (fun n => p n.1) = [] :=
    List.filter_eq_nil_iff.mpr fun n hn => h n (List.mem_of_mem_filter hn)
  rw [merge, restrict, List.filter_append, List.filter_map, hNew, List.append_nil]
  refine (List.map_congr_left fun m hm => ?_).trans (List.map_id _)
  have hChosen : p m.1 := (List.mem_filter.mp hm).2
  have hNone : get? ns m.1 = none := get?_eq_none_iff.mpr fun hMem => by
    obtain ⟨n, hn, hKey⟩ := mem_keys_iff.mp hMem
    rw [← hKey] at hChosen
    exact h n hn hChosen
  rw [hNone]
  rfl

theorem get?_merge_of_notMem (ms : Members) {key : Text} (h : key ∉ keys ns) :
    get? (merge ms ns) key = get? ms key := by
  have hOther : ∀ n ∈ ns, ¬(n.1 == key) = true := fun n hn hEq =>
    h (mem_keys_iff.mpr ⟨n, hn, beq_iff_eq.mp hEq⟩)
  have hChosen := fun ms => get?_restrict (p := (· == key)) ms (beq_self_eq_true key)
  rw [← hChosen (merge ms ns), restrict_merge_of_not ms hOther, hChosen]

/-! ## Indices go before names -/

/-- An index above all that are there goes right behind them. -/
theorem insert_index {front back : Members} {key : Text} {i : Nat} (v : Json)
    (hIndex : IsIndex key i) (hFront : ∀ m ∈ front, precedes i m)
    (hBack : ∀ m ∈ back, IsName m.1) :
    insert (front ++ back) key v = front ++ (key, v) :: back := by
  have hStop : back.takeWhile (precedes i) = [] ∧ back.dropWhile (precedes i) = back := by
    cases back with
    | nil => exact ⟨rfl, rfl⟩
    | cons m rest =>
      have hNot : ¬precedes i m := fun h => by
        obtain ⟨j, hj, -⟩ := precedes_iff.mp h
        exact hBack m List.mem_cons_self j hj
      exact ⟨List.takeWhile_cons_of_neg hNot, List.dropWhile_cons_of_neg hNot⟩
  rw [insert, index?_eq_some_iff.mpr hIndex]
  simp only [List.takeWhile_append_of_pos hFront, List.dropWhile_append_of_pos hFront, hStop.1,
    hStop.2, List.append_nil]

/-- Indices in order that are set among names end up before them. -/
theorem setAll_indices {appearing : List Text} {ms ns : Members} (hNames : ∀ m ∈ ms, IsName m.1)
    (hIndices : ∀ n ∈ ns, ∃ i, IsIndex n.1 i) (hOrder : (keys ns).Pairwise (Precedes appearing)) :
    setAll ms ns = ns ++ ms := by
  induction ns using List.reverseRecOn with
  | nil => rfl
  | append_singleton ns n ih =>
    obtain ⟨key, v⟩ := n
    obtain ⟨i, hi⟩ := hIndices (key, v) (List.mem_append_right _ (List.mem_singleton_self _))
    have hKeys : keys (ns ++ [(key, v)]) = keys ns ++ [key] := List.map_append
    rw [hKeys, List.pairwise_append] at hOrder
    obtain ⟨hBefore, -, hLast⟩ := hOrder
    have hSmaller : ∀ m ∈ ns, precedes i m := by
      intro m hm
      have hPrecedes := hLast m.1 (mem_keys hm) key (List.mem_singleton_self key)
      obtain ⟨j, hj⟩ := hIndices m (List.mem_append_left _ hm)
      cases hPrecedes with
      | indices hj' hi' hLess => exact precedes_iff.mpr ⟨_, hj', hi'.unique hi ▸ hLess⟩
      | index _ hName => exact absurd hi (hName i)
      | names hName => exact absurd hj (hName j)
    have hFresh : key ∉ keys (ns ++ ms) := by
      rw [keys, List.map_append, List.mem_append]
      rintro (hMem | hMem)
      · exact (hLast key hMem key (List.mem_singleton_self key)).ne rfl
      · obtain ⟨m, hm, hKey⟩ := mem_keys_iff.mp hMem
        exact hNames m hm i (hKey ▸ hi)
    rw [setAll_concat, ih (fun n hn => hIndices n (List.mem_append_left _ hn)) hBefore, set,
      if_neg fun h => hFresh (has_iff.mp h), insert_index v hi hSmaller hNames, List.append_assoc]
    rfl

/-- Members in order spread over names: their indices come first, and their names merge. -/
theorem setAll_of_inOrder {ms ns : Members} (hNames : ∀ m ∈ ms, IsName m.1) (h : InOrder ns) :
    setAll ms ns = indexed ns ++ merge ms (named ns) := by
  have hIndices : ∀ n ∈ indexed ns, ∃ i, IsIndex n.1 i := fun n hn => (mem_indexed_iff.mp hn).2
  have hNamed : ∀ n ∈ named ns, IsName n.1 := fun n hn => (mem_named_iff.mp hn).2
  have hFresh : ∀ n ∈ named ns, n.1 ∉ keys (indexed ns) := fun n hn =>
    notMem_keys_indexed ns (hNamed n hn)
  calc
    setAll ms ns = setAll (setAll ms (indexed ns)) (named ns) := by
      rw [← setAll_append, h.indexed_append_named]
    _ = setAll (indexed ns ++ ms) (named ns) := by
      rw [setAll_indices hNames hIndices (h.sublist (keys_restrict_sublist _ ns))]
    _ = indexed ns ++ setAll ms (named ns) := setAll_append_of_names hNamed hFresh
    _ = indexed ns ++ merge ms (named ns) := by
      rw [setAll_eq_merge ms hNamed (h.nodup.sublist (keys_restrict_sublist _ ns))]

/-! ## What settles members in order -/

/-- Where the second key is an index, nothing depends on how keys appear. -/
theorem Precedes.of_isIndex {appearing appearing' : List Text} {a b : Text} {j : Nat}
    (h : Precedes appearing a b) (hb : IsIndex b j) : Precedes appearing' a b := by
  cases h with
  | indices ha hb hLess => exact .indices ha hb hLess
  | index _ hName => exact absurd hb (hName j)
  | names _ hName => exact absurd hb (hName j)

theorem InOrder.pairwise_indexed {ms : Members} (h : InOrder ms) (appearing : List Text) :
    (keys (indexed ms)).Pairwise (Precedes appearing) := by
  refine (h.sublist (keys_restrict_sublist _ ms)).imp_of_mem fun _ hb hPrecedes => ?_
  obtain ⟨j, hj⟩ := (mem_keys_indexed_iff.mp hb).2
  exact hPrecedes.of_isIndex hj

theorem InOrder.ext {ms ns : Members} (hms : InOrder ms) (hns : InOrder ns)
    (hNames : keys (named ms) = keys (named ns)) (hValue : ∀ key, get? ms key = get? ns key) :
    ms = ns := by
  have hMem : ∀ key, key ∈ keys ms ↔ key ∈ keys ns := fun key => by
    rw [← not_iff_not, ← get?_eq_none_iff, ← get?_eq_none_iff, hValue]
  have hIndices : keys (indexed ms) = keys (indexed ns) :=
    eq_of_pairwise_precedes (hms.pairwise_indexed []) (hns.pairwise_indexed []) fun key => by
      rw [mem_keys_indexed_iff, mem_keys_indexed_iff, hMem]
  have hKeys : keys ms = keys ns := by
    rw [← hms.indexed_append_named, ← hns.indexed_append_named, keys, keys, List.map_append,
      List.map_append]
    exact congrArg₂ (· ++ ·) hIndices hNames
  exact eq_of_get? hKeys hms.nodup hValue

end Enroll.Members
