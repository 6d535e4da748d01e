import Enroll.Proofs.Json.Depth
import Enroll.Proofs.Logging.Line
import Enroll.Proofs.Registration.Diagnostic

/-!
# The order of keys

What was read from a body has its keys in order at every depth, and so has an object that is logged
about such a value. `Logger.layout` is how the members of a line stand: the indices of the context,
the level, the names of the context, and what the call adds to them. A text is printed from nothing
but what a value says, for its indices have no other place.
-/

namespace Enroll

/-! ## What a value contributes, in order -/

theorem Members.isName_ofNat {i : Nat} (h : 4294967294 < i) : IsName (Text.ofNat i) := by
  rintro j ⟨hEq, hMost⟩
  have hSame := Text.ofNat_injective hEq
  omega

/-- Numerals that appear in order precede each other, also those too large for an index. -/
theorem Members.precedes_ofNat {appearing : List Text} {i j : Nat} (hLess : i < j)
    (hFirst : appearing.idxOf (Text.ofNat i) < appearing.idxOf (Text.ofNat j)) :
    Precedes appearing (Text.ofNat i) (Text.ofNat j) := by
  by_cases hj : j ≤ 4294967294
  · exact .indices ⟨rfl, by omega⟩ ⟨rfl, hj⟩ hLess
  · have hName : IsName (Text.ofNat j) := isName_ofNat (by omega)
    by_cases hi : i ≤ 4294967294
    · exact .index ⟨rfl, hi⟩ hName
    · exact .names (isName_ofNat (by omega)) hName hFirst

theorem Members.inOrder_mapIdx {α : Type} (xs : List α) (f : α → Json) :
    InOrder (xs.mapIdx fun i x => (Text.ofNat i, f x)) := by
  have hNodup := Json.nodup_keys_mapIdx xs f
  have hKey : ∀ {i : Nat} (hi : i < (keys (xs.mapIdx fun i x => (Text.ofNat i, f x))).length),
      (keys (xs.mapIdx fun i x => (Text.ofNat i, f x)))[i] = Text.ofNat i := fun hi => by
    simp [keys]
  rw [InOrder, List.pairwise_iff_getElem]
  intro i j hi hj hLess
  have hFirst := hLess
  rw [← hNodup.idxOf_getElem i hi, ← hNodup.idxOf_getElem j hj] at hFirst
  rw [hKey hi, hKey hj] at hFirst ⊢
  exact precedes_ofNat hLess hFirst

theorem Json.Ordered.inOrder_members {v : Json} (h : v.Ordered) : v.members.InOrder := by
  cases h with
  | object hKeys => exact hKeys
  | array => exact Members.inOrder_mapIdx _ id
  | string t => exact Members.inOrder_mapIdx t fun u => .string [u]
  | null | bool | number => exact .nil

namespace Logger

open Members (indexed named merge restrict IsName)

variable (service part : Text) (l : Level) (context : Json) (message : Text)

/-! ## The layout of a line -/

/-- The names that a logger gives itself. -/
def names : Members := [("service", .string service), ("prefix", .string part)]

/-- What an entry says beside its level and its context, in the order in which it is set. -/
def call : Members :=
  [("service", .string service), ("prefix", .string part), ("msg", .string message)]

/-- The members of a context with an entry around them: the indices of the context, then the level
with the value that the context may give it, then the other names of the context with the values of
the entry, then what only the entry says. -/
def layout (entry : Members) : Members :=
  indexed context.members ++
    (("level" : Text), (Members.get? context.members "level").getD (.string l.name)) ::
      merge (restrict (· != "level") (named context.members)) entry

theorem isName_of_mem_names : ∀ n ∈ names service part, IsName n.1 := by
  intro n hn
  rcases List.mem_pair.mp hn with rfl | rfl <;> exact Members.index?_eq_none_iff.mp rfl

theorem keys_names : Members.keys (names service part) = ["service", "prefix"] := rfl

theorem level_notMem_names : ("level" : Text) ∉ Members.keys (names service part) := by
  rw [keys_names]
  decide

/-- A level before names: the one among the names takes its place. -/
theorem merge_level (ms : Members) (v : Json) :
    merge [("level", v)] ms =
      (("level" : Text), (Members.get? ms "level").getD v) :: restrict (· != "level") ms := by
  have hHas : ∀ key : Text, (!Members.has [("level", v)] key) = (key != "level") := fun key => by
    rw [Members.has, List.any_cons, List.any_nil, Bool.or_false, bne, Bool.beq_comm]
  simp only [merge, restrict, hHas]
  rfl

variable {context}

/-- The first of the two spreads. -/
theorem signed_eq_merge (hOrder : context.members.InOrder) :
    signed service part context = merge context.members (names service part) := by
  have hNodup : (Members.keys (names service part)).Nodup := by
    rw [keys_names]
    decide
  rw [← Members.setAll_eq_merge _ (isName_of_mem_names service part) hNodup, signed, hOrder.setAll]
  rfl

/-- The second spread, before the message is set. -/
theorem setAll_level_signed (hOrder : context.members.InOrder) :
    Members.setAll [("level", .string l.name)] (signed service part context) =
      layout l context (names service part) := by
  have hNames := isName_of_mem_names service part
  have hSigned := signed_eq_merge service part hOrder
  have hSignedOrder : (signed service part context).InOrder := by
    rw [signed_eq]
    exact (Members.arranges_setAll _).inOrder
  have hIndexed : indexed (signed service part context) = indexed context.members := by
    rw [hSigned]
    refine Members.restrict_merge_of_not _ fun n hn hIndex => ?_
    obtain ⟨i, hi⟩ := Members.isSome_index?_iff.mp hIndex
    exact hNames n hn i hi
  have hNamed : named (signed service part context) =
      merge (named context.members) (names service part) := by
    rw [hSigned]
    exact Members.restrict_merge _ fun n hn => Members.isNone_index?_iff.mpr (hNames n hn)
  have hName : IsName "level" := Members.index?_eq_none_iff.mp rfl
  have hOther := level_notMem_names service part
  have hLevel : Members.get? (merge (named context.members) (names service part)) "level" =
      Members.get? context.members "level" := by
    rw [Members.get?_merge_of_notMem _ hOther]
    exact Members.get?_restrict _ (Members.isNone_index?_iff.mpr hName)
  have hRest : restrict (· != "level") (merge (named context.members) (names service part)) =
      merge (restrict (· != "level") (named context.members)) (names service part) :=
    Members.restrict_merge _ fun n hn => bne_iff_ne.mpr fun hEq =>
      hOther (hEq ▸ Members.mem_keys hn)
  have hFirst : ∀ m ∈ [(("level" : Text), Json.string l.name)], IsName m.1 := fun m hm =>
    List.mem_singleton.mp hm ▸ hName
  rw [Members.setAll_of_inOrder hFirst hSignedOrder, hIndexed, hNamed, merge_level, hLevel, hRest,
    layout]

theorem lineMembers_eq_layout (hOrder : context.members.InOrder) :
    lineMembers service part l context message =
      layout l context (call service part message) := by
  have hName : IsName "msg" := Members.index?_eq_none_iff.mp rfl
  have hFresh : ("msg" : Text) ∉ Members.keys (names service part) := by
    rw [keys_names]
    decide
  have hBefore : ("msg" : Text) ∉ Members.keys (indexed context.members ++
      [(("level" : Text), (Members.get? context.members "level").getD (.string l.name))]) := by
    rw [Members.keys, List.map_append, List.mem_append]
    rintro (hMem | hMem)
    · exact Members.notMem_keys_indexed _ hName hMem
    · have hOther : ("msg" : Text) ≠ "level" := by decide
      exact hOther (List.mem_singleton.mp hMem)
  have hLast := Members.set_merge (restrict (· != "level") (named context.members))
    (.string message) hName hFresh
  calc
    lineMembers service part l context message =
        Members.set (layout l context (names service part)) "msg" (.string message) := by
      rw [← setAll_level_signed service part l hOrder]
      rfl
    _ = _ := by
      rw [layout, List.append_cons, Members.set_append _ _ hName hBefore, hLast, ← List.append_cons]
      rfl

theorem ordered_signed (hOrdered : context.Ordered) :
    (Json.object (signed service part context)).Ordered := by
  have hArranged := Members.arranges_setAll (context.members ++
    [(("service" : Text), Json.string service)] ++ [(("prefix" : Text), Json.string part)])
  rw [← signed_eq] at hArranged
  refine .object hArranged.inOrder (Json.ordered_of_arranges hArranged fun m hm => ?_)
  rcases List.mem_append.mp hm with hm | hm
  · rcases List.mem_append.mp hm with hm | hm
    · exact hOrdered.members m hm
    · exact List.mem_singleton.mp hm ▸ .string service
  · exact List.mem_singleton.mp hm ▸ .string part

end Logger

/-! ## Keys in order -/

/-- The keys of all objects that were read are in order: distinct, indices ascending before names,
and names as they first appear in the text. A line of a log keeps it so, around a context that has
its keys in order, and where each member stands is known. So what values say settles what is printed
of them. -/
theorem keys_in_order [Nesting] :
    (∀ bytes v, Diagnostic.ofBody bytes = .structured v →
      v.Ordered ∧ ∃ ts, Json.Lexes (Utf8.decodeBody bytes) ts ∧ Json.Derives (.value v) ts ∧
        ∀ ms, Json.Within (.object ms) v → (Members.keys ms).Nodup ∧
          ∃ pairs us, us <:+: ts ∧ Json.Braces pairs us ∧ Members.Arranges pairs ms) ∧
      (∀ service part l context message, context.Ordered →
        (Json.object (Logger.signed service part context)).Ordered ∧
          (Json.object (Logger.lineMembers service part l context message)).Ordered ∧
          Logger.lineMembers service part l context message =
            Logger.layout l context (Logger.call service part message)) ∧
      ∀ v w : Json, v.Ordered → w.Ordered → v.Same w →
        v = w ∧ (Diagnostic.structured v).line = (Diagnostic.structured w).line ∧
          ∀ (logger : Logger) l message, logger.write l v message = logger.write l w message := by
  refine ⟨?_, ?_, ?_⟩
  · intro bytes v hBody
    have hDenotes := Diagnostic.ofText_eq_structured_iff.mp hBody
    obtain ⟨ts, hLexes, hDerives, hObjects⟩ := hDenotes.braces
    refine ⟨hDenotes.ordered, ts, hLexes, hDerives, fun ms hWithin => ?_⟩
    obtain ⟨pairs, us, hInfix, hBraces, hArranged⟩ := hObjects ms hWithin
    exact ⟨hArranged.nodup, pairs, us, hInfix, hBraces, hArranged⟩
  · intro service part l context message hOrdered
    exact ⟨Logger.ordered_signed service part hOrdered,
      Logger.ordered_lineMembers service part message hOrdered,
      Logger.lineMembers_eq_layout service part l message hOrdered.inOrder_members⟩
  · intro v w hv hw hSame
    obtain rfl := (Json.same_iff_eq hv hw).mp hSame
    exact ⟨rfl, rfl, fun _ _ _ => rfl⟩

/-- One key comes twice, and two that look like indices are none: one has a zero before its other
digits, and one is too large. -/
theorem keys_in_order_index_like :
    let text : Text := "\x7b\"b\":1,\"10\":\x7b\"2\":null,\"01\":true,\"1\":null\x7d," ++
      "\"9\":null,\"b\":true,\"4294967295\":false,\"level\":\"loud\",\"msg\":null\x7d"
    let inner : Members := [("1", .null), ("2", .null), ("01", .bool true)]
    let v := Json.object [("9", .null), ("10", .object inner), ("b", .bool true),
      ("4294967295", .bool false), ("level", .string "loud"), ("msg", .null)]
    let line : Members := [("9", .null), ("10", .object inner), ("level", .string "loud"),
      ("b", .bool true), ("4294967295", .bool false), ("msg", .string "done"),
      ("service", .string "enroll"), ("prefix", .string "run")]
    Diagnostic.ofBody (Utf8.encode text) = .structured v ∧ v.Ordered ∧
      (∃ pairs us, Json.Braces pairs us ∧ Members.Arranges pairs inner) ∧
      Logger.lineMembers "enroll" "run" .warn v "done" = line ∧
      ∀ w : Json, w.Ordered → v.Same w → v = w := by
  intro text inner v line
  have hDecoded : Utf8.decodeBody (Utf8.encode text) = text := by decide +kernel
  have hRead : Json.read? text = some v := rfl
  have hBody : Diagnostic.ofBody (Utf8.encode text) = .structured v := by
    rw [Diagnostic.ofBody, hDecoded, Diagnostic.ofText, hRead]
  obtain ⟨hBodies, hLogged, hSettled⟩ := keys_in_order
  obtain ⟨hOrdered, ts, -, -, hObjects⟩ := hBodies (Utf8.encode text) v hBody
  have hWithin : Json.Within (.object inner) v :=
    .member (List.mem_cons_of_mem _ List.mem_cons_self) .root
  obtain ⟨-, pairs, us, -, hBraces, hArranged⟩ := hObjects inner hWithin
  refine ⟨hBody, hOrdered, ⟨pairs, us, hBraces, hArranged⟩, ?_, fun w hw hSame => ?_⟩
  · exact (hLogged "enroll" "run" .warn v "done" hOrdered).2.2.trans rfl
  · exact (hSettled v w hOrdered hw hSame).1

end Enroll
