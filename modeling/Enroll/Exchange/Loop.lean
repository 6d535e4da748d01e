import Enroll.Exchange.Basic

/-!
# Calls and the loop that runs them

A call is an exchange with what the caller does once it is over. The loop holds every call that
was ever begun, with one clock for all of them: it moves the call whose turn it is, and time moves
only to the timer that runs out next. An errand is one call, or several that are begun together;
`Loop.perform` runs one until its calls have settled, or until nothing can happen to them any more.
-/

namespace Enroll

/-- Success carries the act that follows it, so one type of call does for all values within. -/
structure Call (α : Type) where
  exchange : Exchange (Act α)
  onFailure : Failure → Act α

namespace Call

variable {α β γ : Type}

/-- The call that closes an exchange, whichever way it went. -/
def closing (x : Exchange β) (close : Except Failure β → Act α) : Call α :=
  ⟨x.map fun b => close (.ok b), fun f => close (.error f)⟩

def mapAct (c : Call α) (f : Act α → Act γ) : Call γ :=
  ⟨c.exchange.map f, fun e => f (c.onFailure e)⟩

end Call

structure Settled (α : Type) where
  result : Except Failure α
  time : Nat

/-- A call as the loop holds it; one that failed before its exchange has no progress. -/
structure Running (α : Type) where
  progress : Option (Progress (Act α))
  onFailure : Failure → Act α
  settled : Option (Settled α)

namespace Running

variable {α : Type}

def next? (r : Running α) : Option NextMove := r.progress.bind Progress.next?

def work (r : Running α) : Nat := (r.progress.map Progress.work).getD 0

def pending (r : Running α) : Nat := (r.progress.map Progress.pending).getD 0

/-- Once the exchange is over the caller goes on, at that moment. -/
def settle (r : Running α) (p : Progress (Act α)) (m : Moment) : Running α × List Effect :=
  match r.settled, p.result? with
  | none, some (.ok act) =>
    ({ r with progress := some p, settled := some ⟨act.result, m.now⟩ }, act.effects)
  | none, some (.error f) =>
    let act := r.onFailure f
    ({ r with progress := some p, settled := some ⟨act.result, m.now⟩ }, act.effects)
  | _, _ => ({ r with progress := some p }, [])

def step (r : Running α) (m : Moment) : Running α × List Effect :=
  match r.progress with
  | none => (r, [])
  | some p =>
    let (p', effects) := p.step m
    let (r', more) := r.settle p' m
    (r', effects ++ more)

def start (opening : Act (Call α)) (s : Script) (m : Moment) : Running α × List Effect :=
  match opening.result with
  | .error f => (⟨none, fun f => .fail f, some ⟨.error f, m.now⟩⟩, opening.effects)
  | .ok c =>
    let (p, effects) := Progress.start c.exchange s m
    (⟨some p, c.onFailure, none⟩, opening.effects ++ effects)

end Running

structure Note where
  call : Nat
  event : Event

inductive Errand (α : Type) where
  | single (opening : Act (Call α)) (script : Script)
  | several (calls : List (Act (Call α) × Script))

/-- All calls in the order in which they began, and the moment of the next move. -/
structure Loop (α : Type) where
  moment : Moment
  calls : List (Running α)

namespace Loop

variable {α : Type}

def startingAt (now : Nat) : Loop α := ⟨⟨now, 0, 0⟩, []⟩

/-- The place of the call that moves next, and its move. Of calls that move alike the one that
began first does. -/
def firstFrom (place : Nat) : List (Running α) → Option (Nat × NextMove)
  | [] => none
  | r :: rest =>
    match r.next?, firstFrom (place + 1) rest with
    | none, later => later
    | some m, none => some (place, m)
    | some m, some (i, b) => if b.before m then some (i, b) else some (place, m)

def first? (l : Loop α) : Option (Nat × NextMove) := firstFrom 0 l.calls

def note (call time : Nat) (effects : List Effect) : List Note :=
  effects.map fun e => ⟨call, time, e⟩

def momentOf (l : Loop α) (next : NextMove) : Moment :=
  ⟨max l.moment.now next.time, if next.atHand then next.rank else l.moment.round, l.moment.turn⟩

def moveCall (l : Loop α) (place : Nat) (next : NextMove) : Loop α × List Note :=
  let m := l.momentOf next
  match l.calls[place]? with
  | none => (l, [])
  | some r =>
    let (r', effects) := r.step m
    (⟨{ m with turn := m.turn + 1 }, l.calls.set place r'⟩, note place m.now effects)

/-- One move; none when nothing can happen any more. -/
def step? (l : Loop α) : Option (Loop α × List Note) :=
  l.first?.map fun (place, next) => l.moveCall place next

def beginOne (l : Loop α) (opening : Act (Call α)) (s : Script) : Loop α × List Note :=
  let (r, effects) := Running.start opening s l.moment
  (⟨{ l.moment with turn := l.moment.turn + 1 }, l.calls ++ [r]⟩,
    note l.calls.length l.moment.now effects)

def beginAll (l : Loop α) : List (Act (Call α) × Script) → Loop α × List Note
  | [] => (l, [])
  | (opening, s) :: rest =>
    let (l', notes) := l.beginOne opening s
    let (l'', more) := beginAll l' rest
    (l'', notes ++ more)

def work (l : Loop α) : Nat := sumOf Running.work l.calls

def settledFrom (l : Loop α) (place : Nat) : Bool :=
  (l.calls.drop place).all fun r => r.settled.isSome

/-- Whether nothing can happen any more to the calls from a place on. -/
def restsFrom (l : Loop α) (place : Nat) : Bool :=
  (l.calls.drop place).all fun r => r.next?.isNone

/-- Moves until the calls from a place on have settled, or nothing can happen to them any more.
Calls before that place move along. -/
def runFor (place : Nat) : Nat → Loop α → Loop α × List Note
  | 0, l => (l, [])
  | fuel + 1, l =>
    if l.settledFrom place || l.restsFrom place then (l, [])
    else
      match l.step? with
      | none => (l, [])
      | some (l', notes) =>
        let (l'', more) := runFor place fuel l'
        (l'', notes ++ more)

/-- What became of the calls of one errand: how each settled, when the errand ended, what timers
of the calls are still set, and all that was seen of it. -/
structure Report (α : Type) where
  results : List (Option (Settled α))
  time : Nat
  pending : Nat
  notes : List Note

def Report.complete (r : Report α) : Bool := r.results.all Option.isSome

def together (l : Loop α) (calls : List (Act (Call α) × Script)) : Loop α × Report α :=
  let place := l.calls.length
  let (begun, first) := l.beginAll calls
  let (ended, rest) := runFor place begun.work begun
  let own := ended.calls.drop place
  (ended, ⟨own.map Running.settled, ended.moment.now, sumOf Running.pending own,
    first ++ rest⟩)

def perform (l : Loop α) : Errand α → Loop α × Report α
  | .single opening s => l.together [(opening, s)]
  | .several calls => l.together calls

/-- A call that never settles is the end of what comes after it; several that were begun together
are left behind. -/
def goesOn (e : Errand α) (r : Report α) : Bool :=
  match e with
  | .single _ _ => r.complete
  | .several _ => true

/-- Performs errands one after another, each from where the one before left the clock. -/
def performAll (l : Loop α) : List (Errand α) → List (Report α)
  | [] => []
  | e :: rest =>
    let (l', report) := l.perform e
    report :: if goesOn e report then performAll l' rest else []

def soloAt (now : Nat) (opening : Act (Call α)) (s : Script) : Report α :=
  ((Loop.startingAt now).perform (.single opening s)).2

def solo (opening : Act (Call α)) (s : Script) : Report α := soloAt 0 opening s

end Loop

end Enroll
