import Enroll.Effect

/-!
# Acts in sequence

What one act after another shows and comes to: the effects are put together until the first
failure, which is that of the whole.
-/

namespace Enroll.Act

variable {α β : Type}

theorem bind_of_ok {x : Act α} {a : α} (h : x.result = .ok a) (next : α → Act β) :
    x >>= next = ⟨x.effects ++ (next a).effects, (next a).result⟩ := by
  change Act.bind x next = _
  simp only [Act.bind, h]

theorem bind_of_error {x : Act α} {f : Failure} (h : x.result = .error f) (next : α → Act β) :
    x >>= next = ⟨x.effects, .error f⟩ := by
  change Act.bind x next = _
  simp only [Act.bind, h]

theorem map_eq (x : Act α) (f : α → β) :
    (x >>= fun a => Pure.pure (f a)) = ⟨x.effects, x.result.map f⟩ := by
  cases hResult : x.result with
  | ok a =>
    rw [bind_of_ok hResult]
    simp [Pure.pure, Act.pure, Except.map]
  | error e =>
    rw [bind_of_error hResult]
    rfl

theorem result_bind_eq_ok {x : Act α} {next : α → Act β} {b : β} :
    (x >>= next).result = .ok b ↔ ∃ a, x.result = .ok a ∧ (next a).result = .ok b := by
  cases hResult : x.result with
  | ok a =>
    rw [bind_of_ok hResult]
    simp
  | error f =>
    rw [bind_of_error hResult]
    simp

/-- Two acts that show the same, and come to related values or to the same failure. -/
inductive Agree (R : α → β → Prop) : Act α → Act β → Prop where
  | ok {a : α} {b : β} (effects : List Effect) (h : R a b) :
    Agree R ⟨effects, .ok a⟩ ⟨effects, .ok b⟩
  | error (effects : List Effect) (f : Failure) : Agree R ⟨effects, .error f⟩ ⟨effects, .error f⟩

theorem Agree.of_eq {R : α → α → Prop} (x : Act α) (h : ∀ a, x.result = .ok a → R a a) :
    Agree R x x := by
  obtain ⟨effects, result⟩ := x
  cases result with
  | ok a => exact .ok effects (h a rfl)
  | error f => exact .error effects f

theorem Agree.result {R : α → β → Prop} {x : Act α} {y : Act β} (h : Agree R x y) :
    (∃ f, x.result = .error f ∧ y.result = .error f) ∨
      ∃ a b, x.result = .ok a ∧ y.result = .ok b ∧ R a b := by
  cases h with
  | ok effects hValues => exact .inr ⟨_, _, rfl, rfl, hValues⟩
  | error effects f => exact .inl ⟨f, rfl, rfl⟩

theorem Agree.mono {R S : α → β → Prop} {x : Act α} {y : Act β} (h : Agree R x y)
    (hRelated : ∀ a b, R a b → S a b) : Agree S x y := by
  cases h with
  | ok effects hValues => exact .ok effects (hRelated _ _ hValues)
  | error effects f => exact .error effects f

theorem Agree.bind {γ δ : Type} {R : α → β → Prop} {S : γ → δ → Prop} {x : Act α} {y : Act β}
    {next : α → Act γ} {next' : β → Act δ} (h : Agree R x y)
    (hNext : ∀ a b, R a b → Agree S (next a) (next' b)) : Agree S (x >>= next) (y >>= next') := by
  cases h with
  | error effects f => exact .error effects f
  | @ok a b effects hValue =>
    rw [bind_of_ok rfl, bind_of_ok rfl]
    have hRest := hNext a b hValue
    generalize next a = z at hRest
    generalize next' b = z' at hRest
    cases hRest with
    | ok more hValue' => exact .ok (effects ++ more) hValue'
    | error more f => exact .error (effects ++ more) f

/-- Nothing shows of an act but what has a property. -/
def Shows (P : Effect → Prop) (x : Act α) : Prop := ∀ e ∈ x.effects, P e

variable {P : Effect → Prop}

theorem shows_pure (a : α) : Shows P (Pure.pure a : Act α) := by
  intro e he
  exact absurd he List.not_mem_nil

theorem shows_fail (f : Failure) : Shows P (.fail f : Act α) := by
  intro e he
  exact absurd he List.not_mem_nil

theorem Shows.bind {x : Act α} {next : α → Act β} (hFirst : x.Shows P)
    (hNext : ∀ a, (next a).Shows P) : (x >>= next).Shows P := by
  cases hResult : x.result with
  | ok a =>
    rw [bind_of_ok hResult]
    intro e he
    rcases List.mem_append.mp he with he | he
    · exact hFirst e he
    · exact hNext a e he
  | error f =>
    rw [bind_of_error hResult]
    exact hFirst

end Enroll.Act
