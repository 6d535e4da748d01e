import Enroll.Proofs.Client.Operations
import Enroll.Proofs.Exchange.Apart

/-!
# Loggers that fail

A logger that fails does so once the entry is made, and whoever asked for the entry fails with it.
So an act under such a logger is the act under a quiet one, broken off after the first entry that
fails. Each way to put acts together keeps that. A call keeps it too, for its exchange has not begun
where its first entries are made and is over where its last are.
-/

namespace Enroll

namespace Logger

/-- What a logger fails with once it has made an entry of a level. -/
def failure? : Logger → Level → Option Failure
  | .recorder _ _ failure?, l => failure? l
  | .console, _ | .lines _ _ _, _ => none

/-- The logger that has the same levels and fails at none of them. -/
def quiet : Logger → Logger
  | .recorder name levels _ => .recorder name levels fun _ => none
  | .console => .console
  | .lines service part threshold => .lines service part threshold

theorem has_quiet (logger : Logger) (l : Level) : logger.quiet.has l = logger.has l := by
  cases logger <;> rfl

theorem neverFails_quiet (logger : Logger) : logger.quiet.NeverFails := by
  cases logger with
  | recorder => exact fun _ _ => rfl
  | _ => trivial

end Logger

namespace LogSource

def failure? : LogSource → Level → Option Failure
  | .plain _ failure?, l | .named _ failure?, l => failure? l
  | .absent, _ | .lines _ _, _ => none

def quiet : LogSource → LogSource
  | .plain levels _ => .plain levels fun _ => none
  | .named levels _ => .named levels fun _ => none
  | .absent => .absent
  | .lines service threshold => .lines service threshold

theorem failure?_logger (s : LogSource) (part : Text) :
    (s.logger part).failure? = s.failure? := by
  cases s <;> rfl

theorem logger_quiet (s : LogSource) (part : Text) :
    s.quiet.logger part = (s.logger part).quiet := by
  cases s <;> rfl

theorem announces_quiet (s : LogSource) (part : Text) :
    s.quiet.announces part = s.announces part := by
  cases s <;> rfl

end LogSource

namespace Effect

/-- What a logger that fails at some levels makes of an effect. -/
def failure? (failure? : Level → Option Failure) : Effect → Option Failure
  | .entry _ l _ _ => failure? l
  | _ => none

end Effect

/-! ## Acts that are broken off -/

namespace Act

variable {α β γ δ : Type} {failure? : Level → Option Failure}

/-- An act beside one that is the same but for the failures of a logger. Where no entry fails both
show the same and come to related values or to one failure; else the second ends with the first
entry that fails, and with that failure. -/
inductive BreaksOff (failure? : Level → Option Failure) (R : α → β → Prop) :
    Act α → Act β → Prop where
  | ok {effects : List Effect} {a : α} {b : β}
      (hCalm : ∀ e ∈ effects, e.failure? failure? = none) (h : R a b) :
    BreaksOff failure? R ⟨effects, .ok a⟩ ⟨effects, .ok b⟩
  | error {effects : List Effect} (f : Failure)
      (hCalm : ∀ e ∈ effects, e.failure? failure? = none) :
    BreaksOff failure? R ⟨effects, .error f⟩ ⟨effects, .error f⟩
  | brokenOff {before after : List Effect} {e : Effect} {f : Failure} (r : Except Failure α)
      (hCalm : ∀ e ∈ before, e.failure? failure? = none) (hFails : e.failure? failure? = some f) :
    BreaksOff failure? R ⟨before ++ e :: after, r⟩ ⟨before ++ [e], .error f⟩

variable {R : α → β → Prop} {S : γ → δ → Prop}

theorem breaksOff_pure {a : α} {b : β} (h : R a b) :
    BreaksOff failure? R (Pure.pure a) (Pure.pure b) :=
  .ok (fun _ he => absurd he List.not_mem_nil) h

theorem breaksOff_fail (f : Failure) : BreaksOff failure? R (.fail f) (.fail f) :=
  .error f fun _ he => absurd he List.not_mem_nil

theorem breaksOff_of_calm (x : Act α) (hCalm : ∀ e ∈ x.effects, e.failure? failure? = none) :
    BreaksOff failure? Eq x x := by
  obtain ⟨effects, result⟩ := x
  cases result with
  | ok a => exact .ok hCalm rfl
  | error f => exact .error f hCalm

theorem breaksOff_ofExcept (r : Except Failure α) :
    BreaksOff failure? Eq (ofExcept r) (ofExcept r) :=
  breaksOff_of_calm _ fun _ he => absurd he List.not_mem_nil

theorem BreaksOff.bind {x : Act α} {y : Act β} {next : α → Act γ} {next' : β → Act δ}
    (h : BreaksOff failure? R x y)
    (hNext : ∀ a b, R a b → BreaksOff failure? S (next a) (next' b)) :
    BreaksOff failure? S (x >>= next) (y >>= next') := by
  cases h with
  | error f hCalm => exact .error f hCalm
  | @ok effects a b hCalm h =>
    rw [bind_of_ok rfl, bind_of_ok rfl]
    have hRest := hNext a b h
    generalize next a = z at hRest
    generalize next' b = z' at hRest
    cases hRest with
    | ok hMore hValue => exact .ok (List.forall_mem_append.mpr ⟨hCalm, hMore⟩) hValue
    | error f hMore => exact .error f (List.forall_mem_append.mpr ⟨hCalm, hMore⟩)
    | brokenOff r hMore hFails =>
      rw [← List.append_assoc, ← List.append_assoc]
      exact .brokenOff r (List.forall_mem_append.mpr ⟨hCalm, hMore⟩) hFails
  | @brokenOff before after e f r hCalm hFails =>
    have hEnds : (⟨before ++ [e], .error f⟩ : Act β) >>= next' = ⟨before ++ [e], .error f⟩ :=
      bind_of_error rfl next'
    rw [hEnds]
    cases r with
    | error g => exact .brokenOff _ hCalm hFails
    | ok a =>
      rw [bind_of_ok rfl, List.append_assoc, List.cons_append]
      exact .brokenOff _ hCalm hFails

theorem BreaksOff.map {x y : Act α} (h : BreaksOff failure? Eq x y) (g : α → γ) :
    BreaksOff failure? Eq (do pure (g (← x))) (do pure (g (← y))) := by
  refine h.bind ?_
  rintro a _ rfl
  exact breaksOff_pure rfl

/-- A failure without an entry before it is none of the logger. -/
theorem BreaksOff.eq_fail {x y : Act α} {f : Failure} (h : BreaksOff failure? Eq x y)
    (hFail : y = .fail f) : x = .fail f := by
  cases h with
  | ok => cases hFail
  | error => exact hFail
  | brokenOff => exact absurd (congrArg Act.effects hFail) (by simp [Act.fail])

theorem BreaksOff.result_eq_ok {x y : Act α} {a : α} (h : BreaksOff failure? Eq x y)
    (hOk : y.result = .ok a) : x.result = .ok a := by
  cases h with
  | ok hCalm hValue => exact hValue ▸ hOk
  | error | brokenOff => cases hOk

theorem breaksOff_write [Nesting] (logger : Logger) (l : Level) (context : Json) (message : Text) :
    BreaksOff logger.failure? Eq (logger.quiet.write l context message)
      (logger.write l context message) := by
  unfold Logger.write
  rw [Logger.has_quiet]
  split
  · cases logger with
    | recorder name levels failure? =>
      simp only [Logger.quiet, Logger.record]
      cases hFails : failure? l with
      | none => exact .ok (List.forall_mem_singleton.mpr hFails) rfl
      | some f =>
        have hNone : ∀ e ∈ ([] : List Effect), e.failure? failure? = none := List.forall_mem_nil _
        exact .brokenOff _ hNone hFails
    | console | lines => exact breaksOff_of_calm _ fun e _ => by cases e <;> rfl
  · exact breaksOff_pure rfl

end Act

/-! ## Calls that are broken off -/

/-- Two calls of one exchange, of which the second closes as the first but for what is broken off.
Neither sends anything while it closes. -/
inductive ClosesAlike (failure? : Level → Option Failure) {α : Type} :
    Call α → Call α → Prop where
  | mk {β : Type} (x : Exchange β) {close close' : Except Failure β → Act α}
      (hClose : ∀ r, (close r).BreaksOff failure? Eq (close' r))
      (hApart : ∀ r, (close r).Apart) :
    ClosesAlike failure? (Call.closing x close) (Call.closing x close')

theorem ClosesAlike.mapAct {failure? : Level → Option Failure} {α γ : Type} {call call' : Call α}
    (h : ClosesAlike failure? call call') {f : Act α → Act γ}
    (hBreaks : ∀ x y, Act.BreaksOff failure? Eq x y → (f x).BreaksOff failure? Eq (f y))
    (hKeeps : ∀ x : Act α, x.Apart → (f x).Apart) :
    ClosesAlike failure? (call.mapAct f) (call'.mapAct f) := by
  obtain ⟨x, hClose, hApart⟩ := h
  rw [Call.mapAct_closing, Call.mapAct_closing]
  exact .mk x (fun r => hBreaks _ _ (hClose r)) fun r => hKeeps _ (hApart r)

theorem Act.BreaksOff.mapAct {failure? : Level → Option Failure} {α γ : Type}
    {opening opening' : Act (Call α)}
    (h : opening.BreaksOff failure? (ClosesAlike failure?) opening') {f : Act α → Act γ}
    (hBreaks : ∀ x y, Act.BreaksOff failure? Eq x y → (f x).BreaksOff failure? Eq (f y))
    (hKeeps : ∀ x : Act α, x.Apart → (f x).Apart) :
    Act.BreaksOff failure? (ClosesAlike failure?) (do pure ((← opening).mapAct f))
      (do pure ((← opening').mapAct f)) := by
  apply h.bind
  intro call call' hAlike
  exact breaksOff_pure (hAlike.mapAct hBreaks hKeeps)

namespace Loop

variable {α : Type} {failure? : Level → Option Failure}

def Report.events (r : Report α) : List Event := r.notes.map Note.event

/-- What comes of a call beside what comes of it under a quiet logger. Where no entry fails it is
the same; else it ends with the first entry that fails, at that time and with that failure. Nothing
is sent if that entry comes before the request. -/
inductive BreaksOff (failure? : Level → Option Failure) (quiet report : Report α) : Prop where
  | spared (hCalm : ∀ e ∈ quiet.events, e.effect.failure? failure? = none)
      (hEvents : report.events = quiet.events) (hResults : report.results = quiet.results)
  | brokenOff {before after : List Event} {e : Event} {f : Failure}
      (hQuiet : quiet.events = before ++ e :: after)
      (hCalm : ∀ b ∈ before, b.effect.failure? failure? = none)
      (hFails : e.effect.failure? failure? = some f)
      (hEvents : report.events = before ++ [e])
      (hResults : report.results = [some ⟨.error f, e.time⟩])
      (hPending : report.pending = 0)
      (hUnsent : (∃ a ∈ after, a.effect.isSent) → ∀ b ∈ before ++ [e], b.effect.isSent = false)

theorem pending_soloAt_of_failed {opening : Act (Call α)} {f : Failure}
    (hFails : opening.result = .error f) (now : Nat) (s : Script) :
    (soloAt now opening s).pending = 0 := by
  let m : Moment := ⟨now, 0, 0⟩
  have hStart : Running.start opening s m =
      (⟨none, fun f => .fail f, some ⟨.error f, now⟩⟩, opening.effects) := by
    rw [Running.start, hFails]
  have hFinished : (Running.start opening s m).1.Finished := by
    rw [hStart]
    exact .inl rfl
  obtain ⟨-, hPending, -⟩ := soloAt_of_run (show m.now = now from rfl) (.refl _) hFinished
  rw [hPending, hStart]
  rfl

theorem pending_soloAt (opening : Act (Call α)) (now : Nat) (s : Script) :
    (soloAt now opening s).pending = 0 := by
  cases hOpening : opening.result with
  | error f => exact pending_soloAt_of_failed hOpening now s
  | ok call => exact (soloAt_verdict hOpening now s).2.1

/-- A call alone shows first what it opens with. -/
theorem events_soloAt (opening : Act (Call α)) (now : Nat) (s : Script) :
    ∃ rest, (soloAt now opening s).events = opening.effects.map (Event.mk now) ++ rest := by
  cases hOpening : opening.result with
  | error f => exact ⟨[], by rw [Report.events, (soloAt_of_failed hOpening now s).2, List.append_nil]⟩
  | ok call =>
    obtain ⟨-, -, hEvents⟩ := soloAt_verdict hOpening now s
    rw [List.map_append, List.append_assoc] at hEvents
    exact ⟨_, hEvents⟩

theorem calm_at {effects : List Effect} (h : ∀ e ∈ effects, e.failure? failure? = none)
    (time : Nat) : ∀ e ∈ effects.map (Event.mk time), e.effect.failure? failure? = none :=
  List.forall_mem_map.mpr h

theorem calm_of_isExchanged {events : List Event} (h : ∀ e ∈ events, e.effect.isExchanged) :
    ∀ e ∈ events, e.effect.failure? failure? = none := by
  rintro ⟨time, e⟩ he
  have hExchanged := h _ he
  cases e with
  | entry => cases hExchanged
  | _ => rfl

/-- Reports that are alike until something is closed, and calm until then. -/
theorem breaksOff_of_closed {begun : List Event} {act act' : Act α} {time : Nat}
    {quiet report : Report α} (hBegun : ∀ e ∈ begun, e.effect.failure? failure? = none)
    (h : act.BreaksOff failure? Eq act') (hApart : act.Apart)
    (hEvents : quiet.events = begun ++ act.effects.map (Event.mk time))
    (hResults : quiet.results = [some ⟨act.result, time⟩])
    (hEvents' : report.events = begun ++ act'.effects.map (Event.mk time))
    (hResults' : report.results = [some ⟨act'.result, time⟩]) (hPending : report.pending = 0) :
    BreaksOff failure? quiet report := by
  cases h with
  | ok hMore hValue =>
    cases hValue
    refine .spared ?_ (hEvents'.trans hEvents.symm) (hResults'.trans hResults.symm)
    rw [hEvents]
    exact List.forall_mem_append.mpr ⟨hBegun, calm_at hMore time⟩
  | error f hMore =>
    refine .spared ?_ (hEvents'.trans hEvents.symm) (hResults'.trans hResults.symm)
    rw [hEvents]
    exact List.forall_mem_append.mpr ⟨hBegun, calm_at hMore time⟩
  | @brokenOff before after e f r hMore hFails =>
    rw [List.map_append, ← List.append_assoc] at hEvents hEvents'
    refine .brokenOff hEvents (List.forall_mem_append.mpr ⟨hBegun, calm_at hMore time⟩) hFails
      hEvents' hResults' hPending ?_
    rintro ⟨a, ha, hLater⟩
    obtain ⟨effect, hEffect, rfl⟩ := List.mem_map.mp ha
    have hNot := Effect.isSent_of_isExchanged
      (hApart effect (List.mem_append_right _ (List.mem_cons_of_mem _ hEffect)))
    rw [hNot] at hLater
    cases hLater

theorem breaksOff_closing {β : Type} {effects : List Effect} {x : Exchange β}
    {close close' : Except Failure β → Act α}
    (hCalm : ∀ e ∈ effects, e.failure? failure? = none)
    (hClose : ∀ r, (close r).BreaksOff failure? Eq (close' r))
    (hApart : ∀ r, (close r).Apart) (now : Nat) (s : Script) :
    BreaksOff failure? (soloAt now ⟨effects, .ok (Call.closing x close)⟩ s)
      (soloAt now ⟨effects, .ok (Call.closing x close')⟩ s) := by
  obtain ⟨hResults, -, hEvents⟩ := soloAt_closing
    (show (⟨effects, .ok (Call.closing x close)⟩ : Act (Call α)).result = _ from rfl) now s
  obtain ⟨hResults', hPending, hEvents'⟩ := soloAt_closing
    (show (⟨effects, .ok (Call.closing x close')⟩ : Act (Call α)).result = _ from rfl) now s
  rw [← List.append_assoc] at hEvents hEvents'
  have hBegun : ∀ e ∈ (effects ++ [Effect.sent x.request false]).map (Event.mk now) ++ x.seen s now,
      e.effect.failure? failure? = none :=
    List.forall_mem_append.mpr
      ⟨calm_at (List.forall_mem_append.mpr ⟨hCalm, List.forall_mem_singleton.mpr rfl⟩) now,
        calm_of_isExchanged (x.isExchanged_seen s now)⟩
  cases hVerdict : x.verdict s with
  | none =>
    rw [hVerdict] at hResults hResults' hEvents hEvents'
    refine .spared ?_ (hEvents'.trans hEvents.symm) (hResults'.trans hResults.symm)
    rw [Report.events, hEvents, Course.later, Option.map_none, closed, List.append_nil]
    exact hBegun
  | some had =>
    rw [hVerdict] at hResults hResults' hEvents hEvents'
    exact breaksOff_of_closed hBegun (hClose had.2) (hApart had.2) hEvents hResults hEvents'
      hResults' hPending

theorem breaksOff_soloAt {opening opening' : Act (Call α)}
    (h : opening.BreaksOff failure? (ClosesAlike failure?) opening')
    (hApart : opening.Apart) (now : Nat) (s : Script) :
    BreaksOff failure? (soloAt now opening s) (soloAt now opening' s) := by
  cases h with
  | ok hCalm hCalls =>
    obtain ⟨x, hClose, hOwn⟩ := hCalls
    exact breaksOff_closing hCalm hClose hOwn now s
  | @error effects f hCalm =>
    have hEvents : (soloAt now (⟨effects, .error f⟩ : Act (Call α)) s).events = _ :=
      (soloAt_of_failed rfl now s).2
    refine .spared ?_ rfl rfl
    rw [hEvents]
    exact calm_at hCalm now
  | @brokenOff before after e f r hCalm hFails =>
    obtain ⟨rest, hQuiet⟩ := events_soloAt ⟨before ++ e :: after, r⟩ now s
    obtain ⟨hResults, hEvents⟩ := soloAt_of_failed
      (show (⟨before ++ [e], .error f⟩ : Act (Call α)).result = .error f from rfl) now s
    rw [List.map_append, List.map_cons, List.append_assoc, List.cons_append] at hQuiet
    rw [List.map_append] at hEvents
    refine .brokenOff hQuiet (calm_at hCalm now) hFails hEvents hResults
      (pending_soloAt_of_failed rfl now s) ?_
    rintro -
    rw [← List.map_singleton, ← List.map_append, List.forall_mem_map]
    intro b hb
    apply Effect.isSent_of_isExchanged
    apply hApart
    rcases List.mem_append.mp hb with hb | hb
    · exact List.mem_append_left _ hb
    · obtain rfl := List.mem_singleton.mp hb
      exact List.mem_append_right _ List.mem_cons_self

end Loop

end Enroll
