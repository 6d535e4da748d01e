import Enroll.Proofs.Logging
import Enroll.Proofs.Json.RoundTrip

/-!
# Lines of a log

A line of a log is one JSON text whatever is logged, and it reads back as an object that says who
logs, at which level and what, and all else that the context holds. `Logger.LineSays` is what that
object has to be: the keys that the logger sets hide those of the context, but for the level.
-/

namespace Enroll

namespace Json

/-! ## What a value contributes -/

theorem forall_of_elementsFit {limit : Nat} {xs : List Json} (h : elementsFit limit xs) :
    ∀ x ∈ xs, x.fits limit := by
  induction xs with
  | nil => exact fun x hx => absurd hx List.not_mem_nil
  | cons x rest ih =>
    rw [elementsFit, Bool.and_eq_true] at h
    exact List.forall_mem_cons.mpr ⟨h.1, ih h.2⟩

theorem forall_of_membersFit {limit : Nat} {ms : Members} (h : membersFit limit ms) :
    ∀ m ∈ ms, m.2.fits limit := by
  induction ms with
  | nil => exact fun m hm => absurd hm List.not_mem_nil
  | cons m rest ih =>
    obtain ⟨key, v⟩ := m
    rw [membersFit, Bool.and_eq_true] at h
    exact List.forall_mem_cons.mpr ⟨h.1, ih h.2⟩

theorem fits_members {limit : Nat} {v : Json} (h : v.fits limit) :
    ∀ m ∈ v.members, m.2.fits (limit - 1) := by
  intro m hm
  cases v with
  | object ms =>
    cases limit with
    | zero => exact absurd h Bool.false_ne_true
    | succ limit => exact forall_of_membersFit h m hm
  | array xs =>
    obtain ⟨i, hi, rfl⟩ := List.mem_mapIdx.mp hm
    cases limit with
    | zero => exact absurd h Bool.false_ne_true
    | succ limit => exact forall_of_elementsFit h _ (List.getElem_mem hi)
  | string t =>
    obtain ⟨i, hi, rfl⟩ := List.mem_mapIdx.mp hm
    exact fits_of_isScalar rfl (limit - 1)
  | null | bool | number => exact absurd hm List.not_mem_nil

theorem Ordered.members {v : Json} (h : v.Ordered) : ∀ m ∈ v.members, m.2.Ordered := by
  intro m hm
  cases h with
  | object hKeys hMembers => exact hMembers m hm
  | array hElements =>
    obtain ⟨i, hi, rfl⟩ := List.mem_mapIdx.mp hm
    exact hElements _ (List.getElem_mem hi)
  | string t =>
    obtain ⟨i, hi, rfl⟩ := List.mem_mapIdx.mp hm
    exact .string _
  | null | bool | number => exact absurd hm List.not_mem_nil

theorem nodup_keys_mapIdx {α : Type} (xs : List α) (f : α → Json) :
    (Members.keys (xs.mapIdx fun i x => (Text.ofNat i, f x))).Nodup := by
  rw [Members.keys, List.nodup_iff_injective_get]
  intro i j hEq
  simp only [List.get_eq_getElem, List.getElem_map, List.getElem_mapIdx] at hEq
  exact Fin.ext (Text.ofNat_injective hEq)

theorem Ordered.nodup_keys {v : Json} (h : v.Ordered) : (Members.keys v.members).Nodup := by
  cases h with
  | object hKeys hMembers => exact hKeys.nodup
  | array hElements => exact nodup_keys_mapIdx _ id
  | string t => exact nodup_keys_mapIdx t fun u => .string [u]
  | null | bool | number => exact List.nodup_nil

theorem get?_printedMembers (ms : Members) (key : Text) :
    Members.get? (printedMembers ms) key = (Members.get? ms key).map printed := by
  induction ms with
  | nil => rfl
  | cons m rest ih =>
    obtain ⟨k, v⟩ := m
    rw [printedMembers, Members.get?_cons, Members.get?_cons, ih]
    split <;> rfl

end Json

namespace Members

theorem set_nil (key : Text) (v : Json) : set [] key v = [(key, v)] := by
  unfold set insert
  cases index? key <;> rfl

end Members

namespace Logger

variable (service part : Text) (l : Level) (context : Json) (message : Text)

/-- What a context says once the names of the logger are set in it. -/
def signed : Members :=
  Members.set (Members.set (Members.setAll [] context.members) "service" (.string service))
    "prefix" (.string part)

theorem signed_eq :
    signed service part context =
      Members.setAll [] (context.members ++ [(("service" : Text), Json.string service)] ++
        [(("prefix" : Text), Json.string part)]) := by
  rw [Members.setAll_concat, Members.setAll_concat, signed]

theorem lineMembers_eq :
    lineMembers service part l context message =
      Members.setAll [] ((("level" : Text), Json.string l.name) :: signed service part context ++
        [(("msg" : Text), Json.string message)]) := by
  rw [Members.setAll_concat, lineMembers, ← signed, ← Members.set_nil]
  rfl

theorem inOrder_lineMembers : (lineMembers service part l context message).InOrder := by
  rw [lineMembers_eq]
  exact (Members.arranges_setAll _).inOrder

variable {context} in
theorem get?_signed (hNodup : (Members.keys context.members).Nodup) (key : Text) :
    Members.get? (signed service part context) key =
      if "prefix" = key then some (.string part)
      else if "service" = key then some (.string service)
      else Members.get? context.members key := by
  rw [signed, Members.get?_set, Members.get?_set, Members.get?_setAll, Members.get?_reverse hNodup]

variable {context} in
/-- The message comes last and hides what is before it; the level comes first. -/
theorem get?_lineMembers (hNodup : (Members.keys context.members).Nodup) (key : Text) :
    Members.get? (lineMembers service part l context message) key =
      if "msg" = key then some (.string message)
      else if "prefix" = key then some (.string part)
      else if "service" = key then some (.string service)
      else (Members.get? context.members key).or
        (if "level" = key then some (.string l.name) else none) := by
  have hSigned : (Members.keys (signed service part context)).Nodup := by
    rw [signed_eq]
    exact (Members.arranges_setAll _).nodup
  rw [lineMembers_eq, Members.setAll_concat, Members.get?_set, Members.get?_setAll,
    List.reverse_cons, Members.get?_append, Members.get?_reverse hSigned, Members.get?_cons,
    Members.get?_nil, get?_signed service part hNodup]
  split
  · rfl
  · split
    · rfl
    · split <;> rfl

/-! ## Lines -/

/-- The members that are read from a line about an entry. The names that the logger sets and the
message are not the context's to change; its other members are those in print. -/
structure LineSays (ms : Members) : Prop where
  service : Members.get? ms "service" = some (.string service)
  part : Members.get? ms "prefix" = some (.string part)
  message : Members.get? ms "msg" = some (.string message)
  own : ∀ (key : Text) v, key ≠ "service" → key ≠ "prefix" → key ≠ "msg" →
    Members.get? context.members key = some v → Members.get? ms key = some v.printed
  level : Members.get? context.members "level" = none →
    Members.get? ms "level" = some (.string l.name)
  further : ∀ key ∈ Members.keys ms, key = "service" ∨ key = "prefix" ∨ key = "msg" ∨
    key = "level" ∨ key ∈ Members.keys context.members
  distinct : (Members.keys ms).Nodup

variable {context} in
theorem lineSays_printedMembers (hNodup : (Members.keys context.members).Nodup) :
    LineSays service part l context message
      (Json.printedMembers (lineMembers service part l context message)) := by
  have hValue := fun key => (Json.get?_printedMembers _ key).trans
    (congrArg (Option.map Json.printed) (get?_lineMembers service part l message hNodup key))
  constructor
  case service => exact hValue "service"
  case part => exact hValue "prefix"
  case message => exact hValue "msg"
  case own =>
    intro key v hService hPart hMessage hContext
    rw [hValue, if_neg hMessage.symm, if_neg hPart.symm, if_neg hService.symm, hContext]
    rfl
  case level =>
    intro hAbsent
    rw [hValue, hAbsent]
    rfl
  case further =>
    intro key hKey
    by_contra hOther
    push Not at hOther
    obtain ⟨hService, hPart, hMessage, hLevel, hContext⟩ := hOther
    have hNone := hValue key
    rw [if_neg hMessage.symm, if_neg hPart.symm, if_neg hService.symm, if_neg hLevel.symm,
      Members.get?_eq_none_iff.mpr hContext] at hNone
    exact Members.get?_eq_none_iff.mp hNone hKey
  case distinct =>
    rw [Json.keys_printedMembers]
    exact (inOrder_lineMembers service part l context message).nodup

variable {l context}

theorem ordered_lineMembers (hOrdered : context.Ordered) :
    (Json.object (lineMembers service part l context message)).Ordered := by
  apply Json.Ordered.object
  · exact inOrder_lineMembers service part l context message
  · exact forall_lineMembers Json.Ordered.string service part l message hOrdered.members

/-- An object around what a context contributes nests no deeper than the context. -/
theorem print?_lineMembers_of_context [Nesting] (hPrints : (Json.print? context).isSome) :
    Json.print? (.object (lineMembers service part l context message)) =
      some (Json.object (lineMembers service part l context message)).text := by
  have hContext : context.fits Nesting.printed := by
    by_contra hDeep
    rw [Json.print?, if_neg hDeep] at hPrints
    exact Bool.false_ne_true hPrints
  apply Json.print?_object
  apply forall_lineMembers (P := fun v => v.fits (Nesting.printed - 1))
  · exact fun _ => Json.fits_of_isScalar rfl _
  · exact Json.fits_members hContext

/-- An entry at or above the threshold is written as one line, whatever is in it: one text without
a break and without half a pair, which is JSON and reads back as what it is about. -/
theorem line_reads_back [Nesting] {threshold : Level} (hRank : threshold.rank ≤ l.rank)
    (hOrdered : context.Ordered) (hPrints : (Json.print? context).isSome) :
    ∃ line ms,
      (Logger.lines service part (some threshold)).write l context message =
        .emit (.console (if l = .error then .level .error else .log) [.text line]) ∧
      line.Paired ∧ (∀ u ∈ line, 0x20 ≤ u.toNat) ∧
      Json.Denotes line (.object ms) ∧ Json.read? line = some (.object ms) ∧
      LineSays service part l context message ms := by
  have hLine := ordered_lineMembers service part (l := l) message hOrdered
  have hDenotes := Json.denotes_text hLine
  obtain ⟨ts, hCompact, -⟩ := Json.prints_of_ordered hLine
  refine ⟨_, _, ?_, hCompact.paired, hCompact.not_control, hDenotes,
    Json.read?_eq_some_iff.mpr hDenotes,
    lineSays_printedMembers service part l message hOrdered.nodup_keys⟩
  have hHas : (Logger.lines service part (some threshold)).has l := decide_eq_true hRank
  rw [write, if_pos hHas, record, print?_lineMembers_of_context service part message hPrints]
  rfl

theorem line_reads_back_colliding :
    let context := Json.object [("7", .number (.infinity true)), ("level", .string "loud\n"),
      ("msg", .null), ("__proto__", .array [.number (.zero true)])]
    Level.info.rank ≤ Level.warn.rank ∧ context.Ordered ∧ (Json.print? context).isSome ∧
      ∃ line ms,
        (Logger.lines "enroll" "run" (some .info)).write .warn context "two\nlines" =
          .emit (.console .log [.text line]) ∧
        line.Paired ∧ (∀ u ∈ line, 0x20 ≤ u.toNat) ∧
        Json.Denotes line (.object ms) ∧ Json.read? line = some (.object ms) ∧
        LineSays "enroll" "run" .warn context "two\nlines" ms := by
  intro context
  have hRead : Json.read? "\x7b\"level\":\"loud\\n\",\"msg\":null,\"__proto__\":[-0],\"7\":-1e999\x7d"
      = some context := rfl
  have hOrdered : context.Ordered := (Json.read?_eq_some_iff.mp hRead).ordered
  exact ⟨by decide, hOrdered, rfl, line_reads_back "enroll" "run" "two\nlines" (by decide)
    hOrdered rfl⟩

end Logger

end Enroll
