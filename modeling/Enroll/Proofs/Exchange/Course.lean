import Enroll.Exchange.Basic

/-!
# The course of an exchange

What an exchange comes to, read off its script and its reaction without running it. Every part has
a course: a time, counted from where the part begins, and what is had then. What heeds the timer is
cut off when it runs out, and at one time the timer comes first. `Exchange.verdict` puts the parts
together, `Exchange.seen` says what shows on the way.
-/

namespace Enroll

@[simp] theorem mapError_ok {γ : Type} (f : Failure → Failure) (v : γ) :
    (Except.ok v).mapError f = .ok v := rfl

@[simp] theorem mapError_error {γ : Type} (f : Failure → Failure) (e : Failure) :
    (Except.error e : Except Failure γ).mapError f = .error (f e) := rfl

/-- What is had of something and how long after its start; `none` where it is never had. -/
abbrev Course (γ : Type) := Option (Nat × γ)

namespace Course

variable {γ δ : Type}

def later (n : Nat) (c : Course γ) : Course γ := c.map fun had => (n + had.1, had.2)

def onValue (f : γ → δ) (c : Course γ) : Course δ := c.map fun had => (had.1, f had.2)

/-- Whether it is had before a time. -/
def within (d : Nat) : Course γ → Bool
  | some (t, _) => t < d
  | none => false

/-- Given up at a time, if it is not had before. -/
def cutAt (d : Nat) (v : γ) (c : Course γ) : Course γ := if c.within d then c else some (d, v)

theorem cutAt_of_within {d : Nat} {v : γ} {c : Course γ} (h : c.within d) : c.cutAt d v = c :=
  if_pos h

theorem cutAt_of_late {d : Nat} {v : γ} {c : Course γ} (h : c.within d = false) :
    c.cutAt d v = some (d, v) := by
  rw [cutAt, h]
  rfl

theorem later_later (n t : Nat) (c : Course γ) : (c.later t).later n = c.later (n + t) := by
  cases c with
  | none => rfl
  | some had => simp [later, Nat.add_assoc]

theorem within_later (n d : Nat) (c : Course γ) : (c.later n).within (n + d) = c.within d := by
  cases c with
  | none => rfl
  | some had => simp [later, within]

theorem later_cutAt (n d : Nat) (v : γ) (c : Course γ) :
    (c.cutAt d v).later n = (c.later n).cutAt (n + d) v := by
  cases hWithin : c.within d with
  | true => rw [cutAt_of_within hWithin, cutAt_of_within (by rwa [within_later])]
  | false =>
    rw [cutAt_of_late hWithin, cutAt_of_late (by rwa [within_later])]
    rfl

end Course

/-! ## The timer -/

theorem truncate?_of_held {negative : Bool} {m : Nat} {e : Int} {canonical : Number.Canonical m e}
    (hLeast : (Number.finite negative m e canonical).ltInt 1 = false)
    (hGreatest : (Number.finite negative m e canonical).gtInt maxDelay = false) :
    ∃ n : Nat, (Number.finite negative m e canonical).truncate? = some (n : Int) ∧
      1 ≤ n ∧ n ≤ maxDelay := by
  have hPos : 0 < Nat.pow 2 (-e).toNat := Nat.two_pow_pos _
  simp only [Number.ltInt, Number.gtInt] at hLeast hGreatest
  cases negative with
  | true =>
    exfalso
    by_cases hWhole : 0 ≤ e
    · have hSigned : 0 ≤ (m : Int) * (Nat.pow 2 e.toNat : Nat) :=
        Int.mul_nonneg (Int.natCast_nonneg _) (Int.natCast_nonneg _)
      simp only [hWhole, if_true, decide_eq_false_iff_not, Int.neg_mul] at hLeast
      omega
    · simp only [hWhole, if_true, if_false, decide_eq_false_iff_not] at hLeast
      omega
  | false =>
    simp only [Number.truncate?]
    refine ⟨_, rfl, ?_⟩
    by_cases hWhole : 0 ≤ e
    · simp only [hWhole, if_true, decide_eq_false_iff_not, Bool.false_eq_true, if_false] at *
      rw [← Int.natCast_mul] at hLeast hGreatest
      omega
    · simp only [hWhole, decide_eq_false_iff_not, Bool.false_eq_true, if_false] at *
      rw [← Int.natCast_mul] at hGreatest
      constructor
      · exact Nat.div_pos (by omega) hPos
      · exact Nat.div_le_of_le_mul (by rw [Nat.mul_comm]; omega)

/-- A timer takes some time, and never more than it can hold. -/
theorem timerDelay_bounds (t : Number) : 1 ≤ timerDelay t ∧ timerDelay t ≤ maxDelay := by
  rw [timerDelay]
  split
  · decide
  · rename_i hHeld
    cases t with
    | finite negative m e canonical =>
      simp only [Number.isNan, Bool.false_or, Bool.or_eq_true, not_or, Bool.not_eq_true] at hHeld
      obtain ⟨n, hWhole, hBounds⟩ := truncate?_of_held hHeld.1 hHeld.2
      rw [hWhole]
      exact hBounds
    | _ => simp [Number.truncate?, maxDelay]

/-! ## The answer -/

def Reply.course : Reply → Course Answer
  | .refused f => some (0, .error f)
  | .after n answer => some (n, answer)
  | .never => none

/-- When there is an answer to a request that is given up at a time, and which. -/
def Script.arrival (s : Script) (d : Nat) : Course Answer :=
  if s.heedsAbort then s.reply.course.cutAt d (.error s.onAbort) else s.reply.course

/-! ## The body -/

namespace BodyState

/-- How a body stands once more has happened on it. -/
def hear : BodyState → Happening → BodyState
  | .open heard release, .data bytes => .open (bytes :: heard) release
  | .open heard release, .finish => .ended heard release
  | .open _ _, .broken f => .broken f
  | b, _ => b

/-- What reading all of a body gives, if nothing has to be waited for. -/
def read? : BodyState → Option (Except Failure Text)
  | .absent | .silent | .released => some (.ok [])
  | .whole bytes => some (.ok (Utf8.decodeBody bytes))
  | .open _ _ => none
  | .ended heard _ => some (.ok (Progress.bodyText heard))
  | .broken f => some (.error f)

/-- What reading gives as one thing after another happens; `now` is the time of the last. -/
def course (b : BodyState) (now : Nat) : List Item → Course (Except Failure Text)
  | [] => b.read?.map fun r => (now, r)
  | i :: rest =>
    match b.read? with
    | some r => some (now, r)
    | none => (b.hear i.happening).course i.delay rest

/-- What giving up a body comes to. -/
def giveUp : BodyState → Release
  | .absent | .silent | .whole _ | .released | .ended [] _ => .granted
  | .open _ r | .ended _ r => r
  | .broken f => .refused f

def showsGivenUp : BodyState → Bool
  | .absent | .silent => false
  | _ => true

end BodyState

namespace Body

def items : Body → List Item
  | .stream items _ => items
  | _ => []

/-- How a body stands before anything has happened on it. -/
def opened : Body → BodyState
  | .absent => .absent
  | .silent => .silent
  | .whole bytes => .whole bytes
  | .stream _ release => .open [] release

/-- How a body stands as soon as it is there: what takes no time has happened. -/
def atOnce (b : Body) : BodyState :=
  (b.items.filter fun i => i.delay == 0).foldl (fun b i => b.hear i.happening) b.opened

/-- What happens on a body later, in the order of time. -/
def later (b : Body) : List Item :=
  (b.items.filter fun i => i.delay != 0).mergeSort fun i j => i.delay ≤ j.delay

def text (b : Body) : Course (Except Failure Text) := b.atOnce.course 0 b.later

end Body

/-- What is had of a body that is given up. -/
def Release.course {β : Type} (value : β) : Release → Course (Except Failure β)
  | .granted => some (0, .ok value)
  | .refused f => some (0, .error f)
  | .pending => none

/-! ## The reaction -/

namespace Reaction

variable {β : Type}

/-- What is done with a response that has this body, nobody giving anything up. -/
def course (b : Body) : Reaction β → Course (Except Failure β)
  | .settle r => some (0, r)
  | .readBody value => b.text.onValue fun r => r.map value
  | .discardBody value => b.atOnce.giveUp.course value
  | .pause delay r => some (delay, r)
  | .never => none

/-- Whether giving up the request ends it. -/
def heeds : Reaction β → Bool
  | .readBody _ | .discardBody _ => true
  | _ => false

/-- What it shows to the service. -/
def touch (b : Body) : Reaction β → List Effect
  | .readBody _ => Progress.readEffects b.opened
  | .discardBody _ => if b.opened.showsGivenUp then [.cancelled] else []
  | _ => []

end Reaction

/-! ## The exchange -/

namespace Exchange

variable {β : Type}

def delay (x : Exchange β) : Nat := timerDelay x.timeout

/-- What is done with a response that is there at a time, with all that the timer does to it. -/
def reacted (x : Exchange β) (s : Script) (t : Nat) (r : Response) : Course (Except Failure β) :=
  let own := ((x.react r.status).course r.body).later t
  if s.heedsAbort && (x.react r.status).heeds then own.cutAt x.delay (.error .aborted) else own

/-- What the request and the reaction to its response come to. -/
def attempt (x : Exchange β) (s : Script) : Course (Except Failure β) :=
  match s.arrival x.delay with
  | none => none
  | some (t, .error f) => some (t, .error f)
  | some (t, .ok r) => x.reacted s t r

/-- What the exchange comes to. -/
def verdict (x : Exchange β) (s : Script) : Course (Except Failure β) :=
  (x.attempt s).map fun had => (had.1, had.2.mapError (x.classify (x.delay ≤ had.1)))

/-- What the reaction shows to the service, from a start on. -/
def touched (x : Exchange β) (s : Script) (now : Nat) : List Event :=
  match s.arrival x.delay with
  | some (t, .ok r) => ((x.react r.status).touch r.body).map (Event.mk (now + t))
  | _ => []

/-- That the timer ran out, if it did. -/
def gaveUp (x : Exchange β) (s : Script) (now : Nat) : List Event :=
  if (x.attempt s).within x.delay then [] else [⟨now + x.delay, .aborted⟩]

/-- All that shows of an exchange from a start on, after its request. -/
def seen (x : Exchange β) (s : Script) (now : Nat) : List Event :=
  if (s.arrival x.delay).within x.delay then x.touched s now ++ x.gaveUp s now
  else x.gaveUp s now ++ x.touched s now

end Exchange

end Enroll
