import Enroll.Proofs.Act
import Enroll.Proofs.Exchange.Delivery
import Enroll.Proofs.Json.Members

/-!
# What an exchange keeps to itself

Neither what a request says nor what the body of its response says has a part in how an exchange
goes. Two exchanges that differ in the body of the request come to the same and show the same but
for that body; and two bodies that end at the same time differ in the text alone that is read.
-/

namespace Enroll

namespace Request

/-- The request as it shows to one who does not see its body. -/
def hidingBody (q : Request) : Request := ⟨q.url, Members.replace q.options "body" .null⟩

theorem method_hidingBody [Nesting] (q : Request) : q.hidingBody.method = q.method := by
  rw [method, method, hidingBody, Members.get?_replace, if_neg (by decide)]

end Request

def Effect.hidingBody : Effect → Effect
  | .sent q late => .sent q.hidingBody late
  | e => e

def Event.hidingBody (e : Event) : Event := ⟨e.time, e.effect.hidingBody⟩

theorem filter_map_hidingBody (events : List Event) :
    (events.map Event.hidingBody).filter (fun e => !e.effect.isSent) =
      events.filter fun e => !e.effect.isSent := by
  induction events with
  | nil => rfl
  | cons e rest ih =>
    obtain ⟨time, effect⟩ := e
    rw [List.map_cons, List.filter_cons, List.filter_cons, ih]
    cases effect <;> simp [Event.hidingBody, Effect.hidingBody, Effect.isSent]

theorem Body.Carries.readEffects {b b' : Body} {bytes bytes' : List UInt8} {u u' : Nat}
    (hBody : b.Carries bytes u) (hBody' : b'.Carries bytes' u')
    (hSilent : b = .silent ↔ b' = .silent) :
    Progress.readEffects b'.opened = Progress.readEffects b.opened := by
  cases hBody <;> cases hBody' <;> first | rfl | simp at hSilent

namespace Exchange

variable {α β : Type} {x x' : Exchange β}

/-! ## The body of a request -/

structure SameButBody (x x' : Exchange β) : Prop where
  nesting : x.nesting = x'.nesting
  request : x.request.hidingBody = x'.request.hidingBody
  timeout : x.timeout = x'.timeout
  react : x.react = x'.react

theorem described_hidingBody [Nesting] (q : Request) (failure : Text → Failure) :
    described q.hidingBody failure = described q failure := by
  rw [described, described, q.method_hidingBody]

theorem timedOut_hidingBody [Nesting] (q : Request) (timeout : Number) (cause : Failure) :
    timedOut q.hidingBody timeout cause = timedOut q timeout cause :=
  described_hidingBody q _

theorem connectionFailed_hidingBody [Nesting] (q : Request) (cause : Failure) :
    connectionFailed q.hidingBody cause = connectionFailed q cause :=
  described_hidingBody q _

namespace SameButBody

theorem classify (h : x.SameButBody x') (aborted : Bool) :
    x.classify aborted = x'.classify aborted := by
  funext f
  let _ := x.nesting
  have hTimedOut : timedOut x.request x.timeout f = timedOut x'.request x'.timeout f := by
    rw [← timedOut_hidingBody, h.request, h.timeout, timedOut_hidingBody]
  have hFailed : connectionFailed x.request f = connectionFailed x'.request f := by
    rw [← connectionFailed_hidingBody, h.request, connectionFailed_hidingBody]
  rw [Exchange.classify, Exchange.classify, ← h.nesting, hTimedOut, hFailed]

theorem delay (h : x.SameButBody x') : x.delay = x'.delay := congrArg timerDelay h.timeout

theorem attempt (h : x.SameButBody x') (s : Script) : x.attempt s = x'.attempt s := by
  have hReacted : x.reacted s = x'.reacted s := by
    funext t r
    rw [reacted, reacted, h.delay, h.react]
  rw [Exchange.attempt, Exchange.attempt, h.delay, hReacted]

theorem verdict (h : x.SameButBody x') (s : Script) : x.verdict s = x'.verdict s := by
  rw [Exchange.verdict, Exchange.verdict, h.attempt, h.delay]
  congr 1
  funext had
  rw [h.classify]

theorem seen (h : x.SameButBody x') (s : Script) (now : Nat) : x.seen s now = x'.seen s now := by
  have hTouched : x.touched s now = x'.touched s now := by
    rw [touched, touched, h.delay, h.react]
  have hGaveUp : x.gaveUp s now = x'.gaveUp s now := by
    rw [gaveUp, gaveUp, h.attempt, h.delay]
  rw [Exchange.seen, Exchange.seen, h.delay, hTouched, hGaveUp]

end SameButBody

/-- Two calls that close alike and whose exchanges differ in the body of the request alone. -/
inductive CallsAlike (β : Type) : Call α → Call α → Prop where
  | closing {x x' : Exchange β} (h : x.SameButBody x') (close : Except Failure β → Act α) :
    CallsAlike β (Call.closing x close) (Call.closing x' close)

open Loop in
theorem soloAt_hidingBody {opening opening' : Act (Call α)}
    (h : Act.Agree (CallsAlike β) opening opening') (now : Nat) (s : Script) :
    (soloAt now opening' s).results = (soloAt now opening s).results ∧
      ((soloAt now opening' s).notes.map Note.event).map Event.hidingBody =
        ((soloAt now opening s).notes.map Note.event).map Event.hidingBody := by
  cases h with
  | error effects f => exact ⟨rfl, rfl⟩
  | ok effects hAlike =>
    obtain ⟨hSame, close⟩ := hAlike
    rename_i x x'
    have hOpens : ∀ call : Call α, (⟨effects, .ok call⟩ : Act (Call α)).result = .ok call :=
      fun _ => rfl
    obtain ⟨hResults, -, hEvents⟩ := soloAt_closing (hOpens (Call.closing x close)) now s
    obtain ⟨hResults', -, hEvents'⟩ := soloAt_closing (hOpens (Call.closing x' close)) now s
    refine ⟨by rw [hResults, hResults', hSame.verdict], ?_⟩
    have hSent : (Effect.sent x'.request false).hidingBody =
        (Effect.sent x.request false).hidingBody :=
      congrArg (Effect.sent · false) hSame.request.symm
    rw [hEvents, hEvents', hSame.verdict, hSame.seen]
    simp [Event.hidingBody, hSent]

/-! ## The body of a response -/

/-- Two scripts that answer alike, with bodies that end at the same time. -/
inductive SameButBytes (bytes bytes' : List UInt8) (status : Nat) : Script → Script → Prop where
  | mk (t : Nat) {b b' : Body} {u : Nat} (hBody : b.Carries bytes u) (hBody' : b'.Carries bytes' u)
    (hSilent : b = .silent ↔ b' = .silent) (heedsAbort : Bool) (onAbort : Failure) :
    SameButBytes bytes bytes' status ⟨.after t (.ok ⟨status, b⟩), heedsAbort, onAbort⟩
      ⟨.after t (.ok ⟨status, b'⟩), heedsAbort, onAbort⟩

variable {bytes bytes' : List UInt8} {status : Nat} {s s' : Script} {value : Text → β}

/-- What two bodies that end at the same time come to: their texts, or the same failure. -/
inductive SameButText (value : Text → β) (bytes bytes' : List UInt8) :
    Course (Except Failure β) → Course (Except Failure β) → Prop where
  | read (t : Nat) : SameButText value bytes bytes' (some (t, .ok (value (Utf8.decodeBody bytes))))
      (some (t, .ok (value (Utf8.decodeBody bytes'))))
  | failed (t : Nat) (f : Failure) :
    SameButText value bytes bytes' (some (t, .error f)) (some (t, .error f))

theorem SameButBytes.attempt (h : SameButBytes bytes bytes' status s s')
    (hReact : x.react status = .readBody value) :
    SameButText value bytes bytes' (x.attempt s) (x.attempt s') := by
  obtain ⟨t, hBody, hBody', -, heedsAbort, onAbort⟩ := h
  rename_i b b' u
  have hRead : ∀ {b : Body} {bytes : List UInt8}, b.Carries bytes u →
      x.unhurried ⟨.after t (.ok ⟨status, b⟩), heedsAbort, onAbort⟩ =
        some (t + u, .ok (value (Utf8.decodeBody bytes))) := by
    intro b bytes hCarries
    simp only [unhurried, Reply.course, hReact, Reaction.course, hCarries.text]
    rfl
  rw [attempt_eq, attempt_eq, hRead hBody, hRead hBody']
  have hHeeds : x.heedsTimer ⟨.after t (.ok ⟨status, b'⟩), heedsAbort, onAbort⟩ =
      x.heedsTimer ⟨.after t (.ok ⟨status, b⟩), heedsAbort, onAbort⟩ := rfl
  rw [hHeeds]
  split
  · by_cases hEarly : t + u < x.delay
    · rw [Course.cutAt_of_within (within_of_early hEarly _),
        Course.cutAt_of_within (within_of_early hEarly _)]
      exact .read _
    · have hLate : x.delay ≤ t + u := Nat.le_of_not_lt hEarly
      rw [Course.cutAt_of_late (within_of_late hLate _),
        Course.cutAt_of_late (within_of_late hLate _)]
      exact .failed _ _
  · exact .read _

theorem SameButBytes.verdict (h : SameButBytes bytes bytes' status s s')
    (hReact : x.react status = .readBody value) :
    SameButText value bytes bytes' (x.verdict s) (x.verdict s') := by
  have hAttempt := h.attempt hReact
  rw [Exchange.verdict, Exchange.verdict]
  generalize x.attempt s = c, x.attempt s' = c' at hAttempt ⊢
  cases hAttempt with
  | read t => exact .read t
  | failed t f => exact .failed t _

/-- An answer with a body comes before the request is given up, or not at all. -/
theorem arrival_of_answer (t d status : Nat) (b : Body) (heedsAbort : Bool) (onAbort : Failure) :
    Script.arrival ⟨.after t (.ok ⟨status, b⟩), heedsAbort, onAbort⟩ d =
      if heedsAbort = false ∨ t < d then some (t, .ok ⟨status, b⟩) else some (d, .error onAbort) := by
  cases heedsAbort <;> simp [Script.arrival, Reply.course, Course.cutAt, Course.within]

theorem SameButBytes.seen (h : SameButBytes bytes bytes' status s s')
    (hReact : x.react status = .readBody value) (now : Nat) : x.seen s' now = x.seen s now := by
  have hGaveUp : x.gaveUp s' now = x.gaveUp s now := by
    have hAttempt := h.attempt hReact
    rw [gaveUp, gaveUp]
    generalize x.attempt s = c, x.attempt s' = c' at hAttempt ⊢
    cases hAttempt <;> rfl
  obtain ⟨t, hBody, hBody', hSilent, heedsAbort, onAbort⟩ := h
  rename_i b b' u
  rw [Exchange.seen, Exchange.seen, hGaveUp, touched, touched, arrival_of_answer, arrival_of_answer]
  by_cases hComes : heedsAbort = false ∨ t < x.delay
  · rw [if_pos hComes, if_pos hComes]
    simp only [hReact, Reaction.touch, hBody.readEffects hBody' hSilent]
    rfl
  · rw [if_neg hComes, if_neg hComes]

end Exchange

end Enroll
