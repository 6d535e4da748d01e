import Enroll.Proofs.Client.Operations
import Enroll.Proofs.Exchange.Apart

/-!
# Accounts

An account of a run names no logger: it says what the run comes to, and in order what is asked of
whoever logs and what shows to anybody else. A log source tells it in its own words. An act that is
`Told` shows the same account whatever source takes part in it, as long as the source does not fail;
each way to put acts together keeps that, so it is had of a program by going through the program.
-/

namespace Enroll

inductive Remark where
  | announced (part : Text)
  | entry (part : Text) (e : LogEntry)
  | outward (e : Effect)

/-- What shows of a remark to anybody but a logger has a property. -/
def Remark.Shows (out : Effect → Prop) : Remark → Prop
  | .outward e => out e
  | _ => True

/-- What a logger that has the level makes of an entry. -/
def Logger.carrier (logger : Logger) (e : LogEntry) : Effect :=
  match logger with
  | .console => .console (.level e.level) [.json (.object e.context), .text e.message]
  | .recorder name _ _ => .entry name e.level (.object e.context) e.message
  | .lines service part _ =>
    .console (lineChannel e.level) [.text
      (Json.object (lineMembers service part e.level (.object e.context) e.message)).text]

theorem Logger.shows_eq [Nesting] (logger : Logger) (e : LogEntry) :
    logger.shows e = if logger.has e.level then [logger.carrier e] else [] := by
  unfold shows write
  split
  · cases logger with
    | lines service part threshold =>
      simp only [record, print?_lineMembers service part e.level e.message e.scalars]
      rfl
    | _ => rfl
  · rfl

namespace LogSource

/-- The levels that the loggers of a source have. -/
def levels : LogSource → List Level
  | .absent => [.debug, .info, .warn, .error]
  | .plain levels _ | .named levels _ => levels
  | .lines _ none => []
  | .lines _ (some threshold) =>
    [Level.debug, .info, .warn, .error].filter fun l => threshold.rank ≤ l.rank

theorem has_logger (s : LogSource) (part : Text) (l : Level) :
    (s.logger part).has l = decide (l ∈ s.levels) := by
  cases s with
  | absent => cases l <;> rfl
  | lines service threshold =>
    cases threshold with
    | none => rfl
    | some threshold => cases threshold <;> cases l <;> rfl
  | _ => exact List.contains_eq_mem _ _

/-- The words of a source: an entry of a level that it lacks is dropped. -/
def told (s : LogSource) : Remark → List Effect
  | .announced part => s.announces part
  | .entry part e => if e.level ∈ s.levels then [(s.logger part).carrier e] else []
  | .outward e => [e]

theorem told_entry [Nesting] (s : LogSource) (part : Text) (e : LogEntry) :
    s.told (.entry part e) = (s.logger part).shows e := by
  simp only [told, Logger.shows_eq, has_logger, decide_eq_true_eq]

def tells (s : LogSource) (remarks : List (Nat × Remark)) : List Event :=
  remarks.flatMap fun r => (s.told r.2).map (Event.mk r.1)

theorem tells_append (s : LogSource) (remarks more : List (Nat × Remark)) :
    s.tells (remarks ++ more) = s.tells remarks ++ s.tells more := List.flatMap_append

theorem tells_at (s : LogSource) (time : Nat) (remarks : List Remark) :
    s.tells (remarks.map (Prod.mk time)) = (remarks.flatMap s.told).map (Event.mk time) := by
  rw [tells, List.flatMap_map, List.map_flatMap]

theorem tells_outward (s : LogSource) (events : List Event) :
    s.tells (events.map fun e => (e.time, .outward e.effect)) = events := by
  rw [tells, List.flatMap_map]
  exact List.flatMap_singleton' events

end LogSource

/-! ## Acts that are told -/

inductive Constant {α : Type} : (LogSource → α) → Prop where
  | mk (a : α) : Constant fun _ => a

/-- An act that every source which does not fail shows in its own words, and that comes to values of
a kind or to the same failure. What shows of it to others has a property. -/
inductive Told (out : Effect → Prop) {α : Type} (kind : (LogSource → α) → Prop)
    (act : LogSource → Act α) : Prop where
  | ok (remarks : List Remark) (hShows : ∀ r ∈ remarks, r.Shows out) (a : LogSource → α)
    (hKind : kind a)
    (hAct : ∀ s, s.NeverFails → act s = ⟨remarks.flatMap s.told, .ok (a s)⟩) : Told out kind act
  | error (remarks : List Remark) (hShows : ∀ r ∈ remarks, r.Shows out) (f : Failure)
    (hAct : ∀ s, s.NeverFails → act s = ⟨remarks.flatMap s.told, .error f⟩) : Told out kind act

section Told

variable {α β : Type} {out : Effect → Prop} {kind : (LogSource → α) → Prop}
  {kind' : (LogSource → β) → Prop}

theorem told_pure {a : LogSource → α} (hKind : kind a) : Told out kind fun s => pure (a s) :=
  .ok [] (by simp) a hKind fun _ _ => rfl

theorem told_fail (f : Failure) : Told out kind fun _ => (.fail f : Act α) :=
  .error [] (by simp) f fun _ _ => rfl

theorem told_ofExcept (r : Except Failure α) : Told out Constant fun _ => Act.ofExcept r := by
  cases r with
  | ok a => exact told_pure (.mk a)
  | error f => exact told_fail f

theorem told_emit {e : Effect} (hOut : out e) :
    Told out (fun _ => True) fun _ => Act.emit e :=
  .ok [.outward e] (List.forall_mem_singleton.mpr hOut) (fun _ => ()) trivial fun _ _ => rfl

theorem told_resolve (part : Text) :
    Told out (· = fun s => s.logger part) fun s => s.resolve part := by
  refine .ok [.announced part] (by simp [Remark.Shows]) _ rfl fun s _ => ?_
  rw [LogSource.resolve_eq, List.flatMap_singleton]
  rfl

theorem told_write [Nesting] (part : Text) (e : LogEntry) :
    Told out (fun _ => True) fun s =>
      (s.logger part).write e.level (.object e.context) e.message := by
  refine .ok [.entry part e] (by simp [Remark.Shows]) (fun _ => ()) trivial fun s hSource => ?_
  have hResult := Logger.result_write (hSource.logger part) e.level e.scalars e.message
  rw [List.flatMap_singleton, LogSource.told_entry, ← hResult]
  rfl

theorem Told.bind {act : LogSource → Act α} {next : LogSource → α → Act β}
    (h : Told out kind act) (hNext : ∀ a, kind a → Told out kind' fun s => next s (a s)) :
    Told out kind' fun s => act s >>= next s := by
  obtain ⟨remarks, hShows, a, hKind, hAct⟩ | ⟨remarks, hShows, f, hAct⟩ := h
  · have hBind : ∀ s, s.NeverFails → act s >>= next s =
        ⟨remarks.flatMap s.told ++ (next s (a s)).effects, (next s (a s)).result⟩ := by
      intro s hSource
      rw [hAct s hSource, Act.bind_of_ok rfl]
    have hBoth : ∀ {more : List Remark}, (∀ r ∈ more, r.Shows out) →
        ∀ r ∈ remarks ++ more, r.Shows out := fun hMore =>
      List.forall_mem_append.mpr ⟨hShows, hMore⟩
    obtain ⟨more, hMore, b, hKind', hRest⟩ | ⟨more, hMore, f, hRest⟩ := hNext a hKind
    · refine .ok (remarks ++ more) (hBoth hMore) b hKind' fun s hSource => ?_
      rw [hBind s hSource, hRest s hSource, List.flatMap_append]
    · refine .error (remarks ++ more) (hBoth hMore) f fun s hSource => ?_
      rw [hBind s hSource, hRest s hSource, List.flatMap_append]
  · refine .error remarks hShows f fun s hSource => ?_
    rw [hAct s hSource, Act.bind_of_error rfl]

theorem Told.bind_constant {act : LogSource → Act α} {next : LogSource → α → Act β}
    (h : Told out Constant act) (hNext : ∀ a, Told out kind' fun s => next s a) :
    Told out kind' fun s => act s >>= next s := by
  refine h.bind ?_
  rintro _ ⟨a⟩
  exact hNext a

theorem Told.map {act : LogSource → Act α} (h : Told out Constant act) (g : α → β) :
    Told out Constant (fun s => do pure (g (← act s))) :=
  h.bind_constant fun a => told_pure (.mk (g a))

end Told

/-! ## Accounts of calls -/

structure Account (α : Type) where
  settled : Option (Settled α)
  remarks : List (Nat × Remark)

/-- Calls of one exchange that close in acts that are told. -/
inductive Closings (out : Effect → Prop) {α : Type} : (LogSource → Call α) → Prop where
  | mk {β : Type} (x : Exchange β) (close : LogSource → Except Failure β → Act α)
    (hClose : ∀ r, Told out Constant fun s => close s r) :
    Closings out fun s => Call.closing x (close s)

theorem Closings.mapAct {out : Effect → Prop} {α γ : Type} {calls : LogSource → Call α}
    (h : Closings out calls) {f : Act α → Act γ}
    (hAct : ∀ act, Told out Constant act → Told out Constant fun s => f (act s)) :
    Closings out fun s => (calls s).mapAct f := by
  obtain ⟨x, close, hClose⟩ := h
  simp only [Call.mapAct_closing]
  exact .mk x _ fun r => hAct _ (hClose r)

section Account

open Loop

variable {α β : Type} {out : Effect → Prop}

/-- What anybody but a logger gets to see has a property. -/
def Account.Outward (a : Account α) (out : Effect → Prop) : Prop :=
  ∀ r ∈ a.remarks, r.2.Shows out

/-- Whether calls come to an account, whoever logs. -/
def Account.Of (a : Account α) (opening : LogSource → Act (Call α)) (now : Nat) (s : Script) :
    Prop :=
  ∀ source : LogSource, source.NeverFails →
    (soloAt now (opening source) s).results = [a.settled] ∧
      (soloAt now (opening source) s).notes.map Note.event = source.tells a.remarks

def begun (opened : List Remark) (x : Exchange β) (now : Nat) (s : Script) : List (Nat × Remark) :=
  (opened ++ [Remark.outward (.sent x.request false)]).map (Prod.mk now) ++
    (x.seen s now).map fun e => (e.time, Remark.outward e.effect)

theorem shows_at {remarks : List Remark} (hShows : ∀ r ∈ remarks, r.Shows out) (time : Nat) :
    ∀ r ∈ remarks.map (Prod.mk time), r.2.Shows out :=
  List.forall_mem_map.mpr hShows

theorem shows_begun (hExchanged : ∀ e : Effect, e.isExchanged → out e) {opened : List Remark}
    (hOpened : ∀ r ∈ opened, r.Shows out) (x : Exchange β) (now : Nat) (s : Script) :
    ∀ r ∈ begun opened x now s, r.2.Shows out := by
  have hSent : ∀ r ∈ [Remark.outward (.sent x.request false)], r.Shows out :=
    List.forall_mem_singleton.mpr (hExchanged _ rfl)
  refine List.forall_mem_append.mpr
    ⟨shows_at (List.forall_mem_append.mpr ⟨hOpened, hSent⟩) now, List.forall_mem_map.mpr ?_⟩
  exact fun e he => hExchanged e.effect (x.isExchanged_seen s now e he)

theorem tells_begun {source : LogSource} {opening : Act (Call α)} {opened : List Remark}
    {x : Exchange β} {close : Except Failure β → Act α}
    (hOpening : opening = ⟨opened.flatMap source.told, .ok (Call.closing x close)⟩) (now : Nat)
    (s : Script) :
    (soloAt now opening s).results =
        [(x.verdict s).map fun had => ⟨(close had.2).result, now + had.1⟩] ∧
      (soloAt now opening s).notes.map Note.event = source.tells (begun opened x now s) ++
        closed close (Course.later now (x.verdict s)) := by
  obtain ⟨hResults, -, hEvents⟩ := soloAt_closing (congrArg Act.result hOpening) now s
  refine ⟨hResults, ?_⟩
  rw [hEvents, begun, LogSource.tells_append, LogSource.tells_at, LogSource.tells_outward, hOpening,
    List.flatMap_append, List.append_assoc]
  rfl

section Closing

variable {opening : LogSource → Act (Call α)} {opened : List Remark} {x : Exchange β}
  {close : LogSource → Except Failure β → Act α} {now : Nat} {s : Script}

theorem account_of_endless
    (hOpens : ∀ source, source.NeverFails →
      opening source = ⟨opened.flatMap source.told, .ok (Call.closing x (close source))⟩)
    (hVerdict : x.verdict s = none) :
    Account.Of ⟨none, begun opened x now s⟩ opening now s := by
  intro source hSource
  obtain ⟨hResults, hEvents⟩ := tells_begun (hOpens source hSource) now s
  rw [hVerdict] at hResults hEvents
  exact ⟨hResults, hEvents.trans (List.append_nil _)⟩

theorem account_of_closed
    (hOpens : ∀ source, source.NeverFails →
      opening source = ⟨opened.flatMap source.told, .ok (Call.closing x (close source))⟩)
    {t : Nat} {r : Except Failure β} (hVerdict : x.verdict s = some (t, r))
    {remarks : List Remark} {result : Except Failure α}
    (hCloses : ∀ source, source.NeverFails →
      close source r = ⟨remarks.flatMap source.told, result⟩) :
    Account.Of ⟨some ⟨result, now + t⟩, begun opened x now s ++ remarks.map (Prod.mk (now + t))⟩
      opening now s := by
  intro source hSource
  obtain ⟨hResults, hEvents⟩ := tells_begun (hOpens source hSource) now s
  rw [hVerdict] at hResults hEvents
  have hClosed : closed (close source) (Course.later now (some (t, r))) =
      (close source r).effects.map (Event.mk (now + t)) := rfl
  rw [hResults, hEvents, hClosed, LogSource.tells_append, LogSource.tells_at, Option.map_some,
    hCloses source hSource]
  exact ⟨rfl, rfl⟩

end Closing

theorem account_of_failed {opening : LogSource → Act (Call α)} {opened : List Remark} {f : Failure}
    (hFails : ∀ source, source.NeverFails →
      opening source = ⟨opened.flatMap source.told, .error f⟩) (now : Nat) (s : Script) :
    Account.Of ⟨some ⟨.error f, now⟩, opened.map (Prod.mk now)⟩ opening now s := by
  intro source hSource
  have hOpening := hFails source hSource
  obtain ⟨hResults, hEvents⟩ := soloAt_of_failed (congrArg Act.result hOpening) now s
  rw [LogSource.tells_at]
  exact ⟨hResults, by rw [hEvents, hOpening]⟩

/-- Openings that are told, of calls that close in acts that are told, come to an account. -/
theorem Told.account {opening : LogSource → Act (Call α)} (h : Told out (Closings out) opening)
    (hExchanged : ∀ e : Effect, e.isExchanged → out e) (now : Nat) (s : Script) :
    ∃ account : Account α, account.Outward out ∧ account.Of opening now s := by
  obtain ⟨opened, hShows, _, ⟨x, close, hClose⟩, hOpens⟩ | ⟨opened, hShows, f, hFails⟩ := h
  · have hBegun := shows_begun hExchanged hShows x now s
    cases hVerdict : x.verdict s with
    | none =>
      refine ⟨_, ?_, account_of_endless hOpens hVerdict⟩
      exact hBegun
    | some had =>
      have hBoth : ∀ {remarks : List Remark}, (∀ r ∈ remarks, r.Shows out) →
          ∀ r ∈ begun opened x now s ++ remarks.map (Prod.mk (now + had.1)), r.2.Shows out :=
        fun hRemarks => List.forall_mem_append.mpr ⟨hBegun, shows_at hRemarks _⟩
      obtain ⟨remarks, hRemarks, _, ⟨a⟩, hCloses⟩ | ⟨remarks, hRemarks, f, hCloses⟩ := hClose had.2
      · refine ⟨_, ?_, account_of_closed hOpens hVerdict hCloses⟩
        exact hBoth hRemarks
      · refine ⟨_, ?_, account_of_closed hOpens hVerdict hCloses⟩
        exact hBoth hRemarks
  · refine ⟨_, ?_, account_of_failed hFails now s⟩
    exact shows_at hShows now

end Account

end Enroll
