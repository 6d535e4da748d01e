import Enroll.Log

/-!
# Loggers that do not fail

A logger may fail at a level only if it was made to. The lines of a logger that prints them are
printed whatever the texts and numbers in an entry, for all it prints is one object of scalars.
-/

namespace Enroll

namespace Json

def isScalar : Json → Bool
  | .array _ | .object _ => false
  | _ => true

theorem fits_of_isScalar {v : Json} (h : v.isScalar) (limit : Nat) : v.fits limit := by
  cases v with
  | array | object => simp [isScalar] at h
  | _ => cases limit <;> rfl

theorem membersFit_of_forall {limit : Nat} {ms : Members} (h : ∀ m ∈ ms, m.2.fits limit) :
    membersFit limit ms := by
  induction ms with
  | nil => rfl
  | cons m rest ih =>
    obtain ⟨key, v⟩ := m
    have hFirst : v.fits limit := h (key, v) List.mem_cons_self
    have hRest := ih fun m hm => h m (List.mem_cons_of_mem _ hm)
    rw [membersFit, hFirst, hRest]
    rfl

/-- There is always room for an object, so one around what fits a level less is printed. -/
theorem print?_object [Nesting] {ms : Members}
    (h : ∀ m ∈ ms, m.2.fits (Nesting.printed - 1)) :
    print? (.object ms) = some (Json.object ms).text := by
  obtain ⟨limit, hLimit⟩ := Nat.exists_eq_add_one_of_ne_zero
    (Nat.pos_iff_ne_zero.mp Nesting.printed_pos)
  rw [hLimit, Nat.add_sub_cancel] at h
  rw [print?, hLimit, fits, if_pos (membersFit_of_forall h)]

end Json

namespace Members

theorem mem_set {ms : Members} {key : Text} {v : Json} {m : Text × Json}
    (h : m ∈ set ms key v) : m ∈ ms ∨ m.2 = v := by
  unfold set at h
  split at h
  · obtain ⟨n, hn, rfl⟩ := List.mem_map.mp h
    split
    · exact .inr rfl
    · exact .inl hn
  · unfold insert at h
    split at h
    · rename_i i hIndex
      rcases List.mem_append.mp h with h | h
      · exact .inl (List.takeWhile_subset _ h)
      · rcases List.mem_cons.mp h with rfl | h
        · exact .inr rfl
        · exact .inl (List.dropWhile_subset _ h)
    · rcases List.mem_append.mp h with h | h
      · exact .inl h
      · obtain rfl := List.mem_singleton.mp h
        exact .inr rfl

theorem mem_setAll {ms news : Members} {m : Text × Json} (h : m ∈ setAll ms news) :
    m ∈ ms ∨ ∃ n ∈ news, m.2 = n.2 := by
  induction news generalizing ms with
  | nil => exact .inl h
  | cons n rest ih =>
    rcases ih h with h | ⟨n', hn', hEq⟩
    · rcases mem_set h with h | hEq
      · exact .inl h
      · exact .inr ⟨n, List.mem_cons_self, hEq⟩
    · exact .inr ⟨n', List.mem_cons_of_mem _ hn', hEq⟩

end Members

namespace Logger

/-- No level that the logger has was made to fail. -/
def NeverFails : Logger → Prop
  | .recorder _ levels failure? => ∀ l ∈ levels, failure? l = none
  | .console | .lines _ _ _ => True

/-- What holds of texts and of all that a context contributes holds of all members of a line. -/
theorem forall_lineMembers {P : Json → Prop} (hText : ∀ t, P (.string t)) (service part : Text)
    (l : Level) {context : Json} (message : Text) (hContext : ∀ m ∈ context.members, P m.2) :
    ∀ m ∈ lineMembers service part l context message, P m.2 := by
  intro m hm
  unfold lineMembers at hm
  rcases Members.mem_set hm with hm | hm
  · rcases Members.mem_setAll hm with hm | ⟨n, hn, hEq⟩
    · obtain rfl := List.mem_singleton.mp hm
      exact hText _
    · rw [hEq]
      rcases Members.mem_set hn with hn | hn
      · rcases Members.mem_set hn with hn | hn
        · rcases Members.mem_setAll hn with hn | ⟨n', hn', hEq'⟩
          · exact absurd hn List.not_mem_nil
          · rw [hEq']
            exact hContext n' hn'
        · rw [hn]
          exact hText service
      · rw [hn]
        exact hText part
  · rw [hm]
    exact hText message

theorem isScalar_lineMembers (service part : Text) (l : Level) (message : Text) {context : Members}
    (hScalars : ∀ m ∈ context, m.2.isScalar) :
    ∀ m ∈ lineMembers service part l (.object context) message, m.2.isScalar := by
  apply forall_lineMembers (P := fun v => v.isScalar)
  · exact fun _ => rfl
  · exact hScalars

theorem print?_lineMembers [Nesting] (service part : Text) (l : Level) (message : Text)
    {context : Members} (hScalars : ∀ m ∈ context, m.2.isScalar) :
    Json.print? (.object (lineMembers service part l (.object context) message)) =
      some (Json.object (lineMembers service part l (.object context) message)).text :=
  Json.print?_object fun m hm =>
    Json.fits_of_isScalar (isScalar_lineMembers service part l message hScalars m hm) _

/-- An entry about scalars is made without a failure. -/
theorem result_write [Nesting] {logger : Logger} (h : logger.NeverFails) (l : Level)
    {context : Members} (hScalars : ∀ m ∈ context, m.2.isScalar) (message : Text) :
    (logger.write l (.object context) message).result = .ok () := by
  rw [write]
  split
  · rename_i hHas
    cases logger with
    | console => rfl
    | recorder name levels failure? =>
      have hNone : failure? l = none := h l (by simpa [has] using hHas)
      simp only [record, hNone]
    | lines service part threshold =>
      simp only [record, print?_lineMembers service part l message hScalars]
      rfl
  · rfl

end Logger

namespace Effect

/-- Whether an effect is an entry of a log. -/
def isEntry : Effect → Bool
  | .entry _ _ _ _ | .console _ _ => true
  | _ => false

/-- Whether an effect is one text on the console. -/
def isLine : Effect → Bool
  | .console _ [.text _] => true
  | _ => false

end Effect

theorem Logger.isEntry_write [Nesting] (logger : Logger) (l : Level) (context : Json)
    (message : Text) :
    ∀ e ∈ (logger.write l context message).effects, e.isEntry := by
  intro e he
  unfold write at he
  split at he
  · cases logger with
    | console =>
      obtain rfl := List.mem_singleton.mp he
      rfl
    | recorder name levels failure? =>
      obtain rfl := List.mem_singleton.mp he
      rfl
    | lines service part threshold =>
      simp only [record] at he
      split at he
      · obtain rfl := List.mem_singleton.mp he
        rfl
      · simp [Act.fail] at he
  · simp [Pure.pure, Act.pure] at he

/-! ## Entries -/

/-- What a logger is handed at one time. -/
structure LogEntry where
  level : Level
  context : Members
  message : Text
  scalars : ∀ m ∈ context, m.2.isScalar

namespace Logger

def shows [Nesting] (logger : Logger) (e : LogEntry) : List Effect :=
  (logger.write e.level (.object e.context) e.message).effects

/-- An entry shows once, unless the logger lacks its level. -/
theorem length_shows [Nesting] (logger : Logger) (e : LogEntry) :
    (logger.shows e).length = if logger.has e.level then 1 else 0 := by
  unfold shows write
  split
  · cases logger with
    | lines service part threshold =>
      simp only [record, print?_lineMembers service part e.level e.message e.scalars]
      rfl
    | _ => rfl
  · rfl

theorem isEntry_shows [Nesting] (logger : Logger) (e : LogEntry) :
    ∀ effect ∈ logger.shows e, effect.isEntry :=
  logger.isEntry_write e.level (.object e.context) e.message

/-- Whether an effect is shown of some entry. -/
def Says [Nesting] (logger : Logger) (effect : Effect) : Prop := ∃ e, effect ∈ logger.shows e

theorem Says.isEntry [Nesting] {logger : Logger} {effect : Effect} (h : logger.Says effect) :
    effect.isEntry := by
  obtain ⟨e, he⟩ := h
  exact logger.isEntry_shows e effect he

/-- All that a logger of lines says is one text at a time. -/
theorem Says.isLine [Nesting] {service part : Text} {threshold : Option Level} {effect : Effect}
    (h : (Logger.lines service part threshold).Says effect) : effect.isLine := by
  obtain ⟨e, he⟩ := h
  unfold shows write at he
  split at he
  · simp only [record, print?_lineMembers service part e.level e.message e.scalars] at he
    obtain rfl := List.mem_singleton.mp he
    rfl
  · simp [Pure.pure, Act.pure] at he

end Logger

/-! ## Sources -/

namespace LogSource

def NeverFails : LogSource → Prop
  | .plain levels failure? | .named levels failure? => ∀ l ∈ levels, failure? l = none
  | .absent | .lines _ _ => True

def logger (s : LogSource) (part : Text) : Logger :=
  match s with
  | .absent => .console
  | .plain levels failure? => .recorder none levels failure?
  | .named levels failure? => .recorder (some part) levels failure?
  | .lines service threshold => .lines service part threshold

/-- A source that is asked for loggers by name shows the name. -/
def announces (s : LogSource) (part : Text) : List Effect :=
  match s with
  | .named _ _ => [.named part]
  | _ => []

theorem eq_of_mem_announces {s : LogSource} {part : Text} {e : Effect}
    (h : e ∈ s.announces part) : e = .named part := by
  cases s with
  | named => exact List.mem_singleton.mp h
  | _ => exact absurd h List.not_mem_nil

theorem resolve_eq (s : LogSource) (part : Text) :
    s.resolve part = ⟨s.announces part, .ok (s.logger part)⟩ := by
  cases s <;> rfl

theorem NeverFails.logger {s : LogSource} (h : s.NeverFails) (part : Text) :
    (s.logger part).NeverFails := by
  cases s with
  | absent | lines => trivial
  | plain | named => exact h

end LogSource

end Enroll
