import Enroll.Registration.Outcome
import Enroll.Service.Script

/-!
# Exchanges

An exchange is one request under one timer, with what is to be done with the response. `Progress`
is an exchange under way: what it waits for, how the body stands, and the timers that are set, on
both sides. It moves in steps. Where the next thing is at hand it is taken; else the earliest timer
runs out, of two the one set first.

What is at hand at one time is taken in rounds. How many rounds pass before it is taken (`wait`)
depends on the kind of thing, and orders the events of exchanges that began together; it takes no
time.

The timer of the exchange covers all of it. What fails after the timer ran out is a timeout,
whatever it failed with; before that, a type error is a failed connection and all else stays what
it is.
-/

namespace Enroll

def sumOf {α : Type} (f : α → Nat) : List α → Nat
  | [] => 0
  | a :: rest => f a + sumOf f rest

inductive Reaction (β : Type) where
  | settle (r : Except Failure β)
  | readBody (value : Text → β)
  | discardBody (value : β)
  | pause (delay : Nat) (r : Except Failure β)
  | never

namespace Reaction

variable {β γ : Type}

def map (f : β → γ) : Reaction β → Reaction γ
  | .settle r => .settle (r.map f)
  | .readBody value => .readBody fun t => f (value t)
  | .discardBody value => .discardBody (f value)
  | .pause delay r => .pause delay (r.map f)
  | .never => .never

end Reaction

structure Exchange (β : Type) where
  request : Request
  timeout : Number
  react : (status : Nat) → Reaction β
  /-- What there is room for where a failure names the method. -/
  [nesting : Nesting]

namespace Exchange

variable {β γ : Type}

def map (f : β → γ) (x : Exchange β) : Exchange γ :=
  letI := x.nesting
  ⟨x.request, x.timeout, fun status => (x.react status).map f⟩

def describe (method url what : Text) : Text :=
  "keyreg-client:http-exchange:exchange - " ++ method ++ " " ++ url ++ what

/-- The failure whose message describes the request, or the one that keeps it from being
described. -/
def described [Nesting] (r : Request) (failure : (method : Text) → Failure) : Failure :=
  match r.method with
  | .ok method => failure method
  | .error f => f

def timedOut [Nesting] (r : Request) (timeout : Number) (cause : Failure) : Failure :=
  described r fun method =>
    .transport .timeout (describe method r.url (" timed out after " ++ timeout.text ++ "ms"))
      r.url (some timeout) (some cause)

def connectionFailed [Nesting] (r : Request) (cause : Failure) : Failure :=
  described r fun method =>
    .transport .connectionFailed (describe method r.url (" failed: " ++ cause.networkReason))
      r.url none (some cause)

def classify (x : Exchange β) (aborted : Bool) (f : Failure) : Failure :=
  letI := x.nesting
  if aborted then timedOut x.request x.timeout f
  else if f.isTypeError then connectionFailed x.request f
  else f

end Exchange

inductive BodyState where
  | absent
  | silent
  | whole (bytes : List UInt8)
  /-- Still coming; what came is kept latest first. -/
  | open (heard : List (List UInt8)) (release : Release)
  | ended (heard : List (List UInt8)) (release : Release)
  | broken (f : Failure)
  | released

/-- What an exchange under way waits for. In `answered` and `concluding` it is at hand. -/
inductive Stage (β : Type) where
  | connecting
  | answered (answer : Except Failure Nat)
  | reading (value : Text → β)
  | discarding (value : β)
  | pausing (r : Except Failure β)
  | stuck
  | concluding (r : Except Failure β)
  | over (r : Except Failure β)

inductive Purpose where
  | deadline
  | answer (a : Answer)
  | item (h : Happening)
  | pause

def Purpose.isDeadline : Purpose → Bool
  | .deadline => true
  | _ => false

/-- A time, the round in it, and which turn of the whole run it is. -/
structure Moment where
  now : Nat
  round : Nat
  turn : Nat

/-- A timer that is set: when it runs out and the turn in which it was set. -/
structure Alarm where
  due : Nat
  turn : Nat
  purpose : Purpose

/-- When something moves next. What is at hand comes before the timers of the same time; of what
is at hand an earlier round counts, of timers the one that was set in an earlier turn. -/
structure NextMove where
  time : Nat
  atHand : Bool
  rank : Nat
  deriving DecidableEq

def NextMove.before (a b : NextMove) : Bool :=
  a.time < b.time ||
    (a.time == b.time && ((a.atHand && !b.atHand) || (a.atHand == b.atHand && a.rank < b.rank)))

namespace BodyState

/-- The rounds until all of a body is read, one for each piece that is there. -/
def readRounds : BodyState → Nat
  | .absent | .silent | .released => 3
  | .whole _ => 7
  | .open heard _ | .ended heard _ => heard.length + 6
  | .broken _ => 6

def discardRounds : BodyState → Nat
  | .whole _ | .open _ _ | .ended (_ :: _) _ => 2
  | _ => 1

end BodyState

/-- The rounds from the end of what is done with the response to the caller. -/
def closingRounds : Nat := 3

structure Progress (β : Type) where
  exchange : Exchange β
  script : Script
  stage : Stage β
  /-- The rounds after which what is at hand is taken. -/
  wait : Nat
  body : BodyState
  aborted : Bool
  /-- In the order in which they were set. -/
  alarms : List Alarm
  since : Moment

namespace Progress

variable {β : Type}

def conclude (p : Progress β) (r : Except Failure β) : Progress β :=
  { p with
    stage := .over (r.mapError (p.exchange.classify p.aborted))
    alarms := p.alarms.filter fun a => !a.purpose.isDeadline }

/-- The result of what is done with the response is known, and reaches the caller some rounds
later. -/
def concludeAfter (p : Progress β) (rounds : Nat) (r : Except Failure β) : Progress β :=
  { p with stage := .concluding r, wait := rounds + closingRounds }

def setAlarm (p : Progress β) (m : Moment) (delay : Nat) (purpose : Purpose) : Progress β :=
  { p with alarms := p.alarms ++ [⟨m.now + delay, m.turn, purpose⟩] }

def bodyText (heard : List (List UInt8)) : Text := Utf8.decodeBody heard.reverse.flatten

/-- The body has ended or broken: who was reading it has an answer. -/
def bodySettled (p : Progress β) (r : Except Failure Text) : Progress β :=
  match p.stage with
  | .reading value => p.concludeAfter p.body.readRounds (r.map value)
  | _ => p

def happen (p : Progress β) (h : Happening) : Progress β :=
  match p.body with
  | .open heard release =>
    match h with
    | .data bytes => { p with body := .open (bytes :: heard) release }
    | .finish => bodySettled { p with body := .ended heard release } (.ok (bodyText heard))
    | .broken f => bodySettled { p with body := .broken f } (.error f)
  | _ => p

/-- What takes no time happens on the body at once; for each other item a timer is set. -/
def flow (p : Progress β) (m : Moment) : List Item → Progress β
  | [] => p
  | ⟨0, h⟩ :: rest => flow (p.happen h) m rest
  | ⟨n + 1, h⟩ :: rest => flow (p.setAlarm m (n + 1) (.item h)) m rest

/-- An answer counts only where one is still waited for. -/
def answered (p : Progress β) (rounds : Nat) (answer : Except Failure Nat) : Progress β :=
  match p.stage with
  | .connecting => { p with stage := .answered answer, wait := rounds }
  | _ => p

/-- The answer of the service is there. Its body comes whether it is waited for or not. -/
def receive (p : Progress β) (m : Moment) (answer : Answer) : Progress β :=
  match answer with
  | .error f => p.answered 2 (.error f)
  | .ok ⟨status, body⟩ =>
    let p := p.answered 1 (.ok status)
    match body with
    | .absent => { p with body := .absent }
    | .silent => { p with body := .silent }
    | .whole bytes => { p with body := .whole bytes }
    | .stream items release => flow { p with body := .open [] release } m items

/-- The exchange begins: its timer is set before the request is sent. -/
def start (x : Exchange β) (s : Script) (m : Moment) : Progress β × List Effect :=
  let p : Progress β := ⟨x, s, .connecting, 0, .absent, false, [], m⟩
  let p := p.setAlarm m (timerDelay x.timeout) .deadline
  let p :=
    match s.reply with
    | .refused f => p.answered 1 (.error f)
    | .never => p
    | .after 0 answer => p.receive m answer
    | .after (n + 1) answer => p.setAlarm m (n + 1) (.answer answer)
  (p, [.sent x.request false])

def readBody (p : Progress β) (value : Text → β) : Progress β :=
  match p.body with
  | .absent | .silent | .released => p.concludeAfter p.body.readRounds (.ok (value []))
  | .whole bytes => p.concludeAfter p.body.readRounds (.ok (value (Utf8.decodeBody bytes)))
  | .open _ _ => { p with stage := .reading value }
  | .ended heard _ => p.concludeAfter p.body.readRounds (.ok (value (bodyText heard)))
  | .broken f => p.concludeAfter p.body.readRounds (.error f)

def readEffects : BodyState → List Effect
  | .silent => []
  | _ => [.read]

def release (p : Progress β) (value : β) (r : Release) : Progress β :=
  let rounds := p.body.discardRounds
  let p := { p with body := .released }
  match r with
  | .granted => p.concludeAfter rounds (.ok value)
  | .refused f => p.concludeAfter rounds (.error f)
  | .pending => { p with stage := .discarding value }

def discardBody (p : Progress β) (value : β) : Progress β × List Effect :=
  match p.body with
  | .absent | .silent => (p.concludeAfter p.body.discardRounds (.ok value), [])
  | .whole _ | .released | .ended [] _ => (p.release value .granted, [.cancelled])
  | .open _ r | .ended _ r => (p.release value r, [.cancelled])
  | .broken f => (p.concludeAfter p.body.discardRounds (.error f), [.cancelled])

def react (p : Progress β) (m : Moment) : Reaction β → Progress β × List Effect
  | .settle r => (p.conclude r, [])
  | .readBody value => (p.readBody value, readEffects p.body)
  | .discardBody value => p.discardBody value
  | .pause 0 r => (p.concludeAfter 1 r, [])
  | .pause (n + 1) r => (setAlarm { p with stage := .pausing r } m (n + 1) .pause, [])
  | .never => ({ p with stage := .stuck }, [])

/-- What a service that takes notice does when the request is given up. -/
def withdraw (p : Progress β) : Progress β :=
  match p.stage with
  | .connecting => p.answered 2 (.error p.script.onAbort)
  | .discarding _ => p.concludeAfter 1 (.error .aborted)
  | _ =>
    match p.body with
    | .open _ _ => bodySettled { p with body := .broken .aborted } (.error .aborted)
    | _ => p

def ring (p : Progress β) (m : Moment) (purpose : Purpose) : Progress β × List Effect :=
  match purpose with
  | .deadline =>
    let p : Progress β := { p with aborted := true }
    (if p.script.heedsAbort then p.withdraw else p, [.aborted])
  | .answer a => (p.receive m a, [])
  | .item h => (p.happen h, [])
  | .pause =>
    match p.stage with
    | .pausing r => (p.concludeAfter 1 r, [])
    | _ => (p, [])

/-- The first of the earliest alarms, and the others in their order. -/
def earliest? : List Alarm → Option (Alarm × List Alarm)
  | [] => none
  | a :: rest =>
    match earliest? rest with
    | none => some (a, [])
    | some (b, others) => if a.due ≤ b.due then some (a, rest) else some (b, a :: others)

def ready (p : Progress β) : Bool :=
  match p.stage with
  | .answered _ | .concluding _ => true
  | _ => false

/-- What is at hand is taken some rounds after the last move. -/
def next? (p : Progress β) : Option NextMove :=
  if p.ready then some ⟨p.since.now, true, p.since.round + p.wait⟩
  else (earliest? p.alarms).map fun a => ⟨a.1.due, false, a.1.turn⟩

/-- Takes what is at hand, or lets the earliest timer run out. -/
def step (p : Progress β) (m : Moment) : Progress β × List Effect :=
  let p : Progress β := { p with since := m }
  match p.stage with
  | .answered (.error f) => (p.conclude (.error f), [])
  | .answered (.ok status) => p.react m (p.exchange.react status)
  | .concluding r => (p.conclude r, [])
  | _ =>
    match earliest? p.alarms with
    | none => (p, [])
    | some (a, others) => ring { p with alarms := others } m a.purpose

def result? (p : Progress β) : Option (Except Failure β) :=
  match p.stage with
  | .over r => some r
  | _ => none

/-- The timers of the exchange itself that are still set. -/
def pending (p : Progress β) : Nat := (p.alarms.filter fun a => a.purpose.isDeadline).length

/-- The timers that come of an alarm, itself included. -/
def alarmWork (a : Alarm) : Nat :=
  match a.purpose with
  | .answer answer => answer.items.length + 1
  | _ => 1

/-- More steps than this it never takes. -/
def work (p : Progress β) : Nat :=
  sumOf alarmWork p.alarms +
    match p.stage with
    | .connecting => 5
    | .answered _ => 4
    | .reading _ | .discarding _ | .pausing _ | .stuck => 2
    | .concluding _ => 1
    | .over _ => 0

end Progress

end Enroll
