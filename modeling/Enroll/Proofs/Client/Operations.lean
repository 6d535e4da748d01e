import Enroll.Client
import Enroll.Proofs.Act
import Enroll.Proofs.Exchange.Classification
import Enroll.Proofs.Logging

/-!
# The operations of a client

An operation that is asked of a client at a port that a service can have is one exchange with
entries of the log before and after it. A logger that does not fail leaves its verdict alone.
-/

namespace Enroll

section Map

variable {α β γ δ : Type}

theorem Reaction.map_map (f : β → γ) (g : γ → δ) (r : Reaction β) :
    (r.map f).map g = r.map fun b => g (f b) := by
  cases r with
  | settle result => cases result <;> rfl
  | pause delay result => cases result <;> rfl
  | _ => rfl

theorem Call.mapAct_closing (x : Exchange β) (close : Except Failure β → Act α)
    (f : Act α → Act γ) :
    (Call.closing x close).mapAct f = Call.closing x fun r => f (close r) := by
  simp only [Call.closing, Call.mapAct, Exchange.map, Reaction.map_map]
  rfl

end Map

namespace Client

open Loop

inductive Operation where
  | register (port : Number) (r : Registration)
  | checkHealth (port : Number)

inductive Result where
  | outcome (o : Outcome)
  | healthy (b : Bool)

namespace Operation

def port : Operation → Number
  | .register port _ => port
  | .checkHealth port => port

def path : Operation → Text
  | .register _ _ => registerPath
  | .checkHealth _ => healthPath

end Operation

def call [Nesting] (c : Client) : Operation → Act (Call Result)
  | .register port r => do
    let call ← c.register port r
    pure (call.mapAct fun a => do pure (.outcome (← a)))
  | .checkHealth port => do
    let call ← c.checkHealth port
    pure (call.mapAct fun a => do pure (.healthy (← a)))

def registering [Nesting] (c : Client) (port : Number) (r : Registration) : Exchange Outcome :=
  ⟨r.request (c.url port registerPath), c.timeout, registerReaction⟩

theorem heeds_registerReaction (status : Nat) : (registerReaction status).heeds := by
  unfold registerReaction
  split <;> rfl

def probing [Nesting] (c : Client) (port : Number) : Exchange Bool :=
  ⟨probeRequest (c.url port healthPath), c.timeout, fun status => .discardBody (granted status)⟩

/-! ## The entries of the log -/

def sendingEntry (c : Client) (port : Number) (r : Registration) : LogEntry :=
  ⟨.debug, [("url", .string (c.url port registerPath)), ("name", .string r.name)],
    entryText "register" "Sending registration", by simp [Json.isScalar]⟩

def acceptedEntry (port : Number) (r : Registration) : LogEntry :=
  ⟨.info, [("name", .string r.name), ("port", .number port)], entryText "register" "Registered",
    by simp [Json.isScalar]⟩

def rejectedEntry (port : Number) (r : Registration) (status : Nat) (diagnostic : Diagnostic) :
    LogEntry :=
  ⟨.warn, [("name", .string r.name), ("port", .number port), ("status", .number (.ofNat status)),
    ("diagnostic", .string diagnostic.kind)],
    entryText "register" "Key service rejected registration", by simp [Json.isScalar]⟩

def unreachableEntry (c : Client) (port : Number) (code : TransportCode) (message : Text) :
    LogEntry :=
  ⟨.error, [("url", .string (c.url port registerPath)), ("code", .string code.text)],
    entryText "register" message, by simp [Json.isScalar]⟩

def probedEntry (c : Client) (port : Number) (healthy : Bool) : LogEntry :=
  ⟨.debug, [("url", .string (c.url port healthPath)), ("healthy", .bool healthy)],
    entryText "checkHealth" "Probed key service", by simp [Json.isScalar]⟩

/-- The entries before the request. -/
def opens (c : Client) : Operation → List LogEntry
  | .register port r => [c.sendingEntry port r]
  | .checkHealth _ => []

/-- The entries at the end, by what the operation came to. -/
inductive Closes (c : Client) : Operation → Except Failure Result → List LogEntry → Prop where
  | accepted (port : Number) (r : Registration) :
    Closes c (.register port r) (.ok (.outcome .accepted)) [acceptedEntry port r]
  | rejected (port : Number) (r : Registration) (status : Nat) (diagnostic : Diagnostic) :
    Closes c (.register port r) (.ok (.outcome (.rejected status diagnostic)))
      [rejectedEntry port r status diagnostic]
  | unreachable (port : Number) (r : Registration) (code : TransportCode) (message url : Text)
      (timeout : Option Number) (cause : Option Failure) :
    Closes c (.register port r) (.error (.transport code message url timeout cause))
      [c.unreachableEntry port code message]
  | failed (port : Number) (r : Registration) (f : Failure) (hOther : f.isTransport = false) :
    Closes c (.register port r) (.error f) []
  | probed (port : Number) (healthy : Bool) :
    Closes c (.checkHealth port) (.ok (.healthy healthy)) [c.probedEntry port healthy]
  | unprobed (port : Number) (f : Failure) : Closes c (.checkHealth port) (.error f) []

/-! ## What is logged -/

theorem checkPort_of_valid {port : Number} (hPort : validPort port) (operation : String) :
    checkPort operation port = pure () := if_pos hPort

theorem bind_write [Nesting] {log : Logger} (hLog : log.NeverFails) (e : LogEntry) {α : Type}
    (next : Unit → Act α) :
    log.write e.level (.object e.context) e.message >>= next =
      ⟨log.shows e ++ (next ()).effects, (next ()).result⟩ :=
  Act.bind_of_ok (Logger.result_write hLog e.level e.scalars e.message) next

theorem closes_register [Nesting] {c : Client} (hLog : c.log.NeverFails) (port : Number)
    (r : Registration) (o : Except Failure Outcome) :
    ∃ closing, Closes c (.register port r) (o.map .outcome) closing ∧
      c.closeRegister port r.name (c.url port registerPath) o =
        ⟨closing.flatMap c.log.shows, o⟩ := by
  cases o with
  | ok outcome =>
    cases outcome with
    | accepted =>
      have hBind := bind_write hLog (acceptedEntry port r) fun _ => pure Outcome.accepted
      exact ⟨_, .accepted port r, hBind⟩
    | rejected status diagnostic =>
      have hBind := bind_write hLog (rejectedEntry port r status diagnostic) fun _ =>
        pure (Outcome.rejected status diagnostic)
      exact ⟨_, .rejected port r status diagnostic, hBind⟩
  | error f =>
    cases f with
    | transport code message url timeout cause =>
      have hBind := bind_write hLog (c.unreachableEntry port code message) fun _ =>
        (Act.fail (.transport code message url timeout cause) : Act Outcome)
      exact ⟨_, .unreachable port r code message url timeout cause, hBind⟩
    | _ => exact ⟨[], .failed port r _ rfl, rfl⟩

theorem closes_checkHealth [Nesting] {c : Client} (hLog : c.log.NeverFails) (port : Number)
    (o : Except Failure Bool) :
    ∃ closing, Closes c (.checkHealth port) (o.map .healthy) closing ∧
      c.closeHealth (c.url port healthPath) o = ⟨closing.flatMap c.log.shows, o⟩ := by
  cases o with
  | ok healthy =>
    have hBind := bind_write hLog (c.probedEntry port healthy) fun _ => pure healthy
    exact ⟨_, .probed port healthy, hBind⟩
  | error f => exact ⟨[], .unprobed port f, rfl⟩

/-- The closing act of an operation adds entries and lets the verdict through. -/
structure Reports {β : Type} (close : Except Failure β → Act Result) (value : β → Result) :
    Prop where
  result : ∀ r, (close r).result = r.map value
  entries : ∀ r, ∀ e ∈ (close r).effects, e.isEntry

theorem reports_of_shows [Nesting] {β : Type} {log : Logger} {close : Except Failure β → Act β}
    (hClose : ∀ r, ∃ closing : List LogEntry, close r = ⟨closing.flatMap log.shows, r⟩)
    (value : β → Result) : Reports (fun r => do pure (value (← close r))) value := by
  constructor
  · intro r
    obtain ⟨closing, hShows⟩ := hClose r
    rw [Act.map_eq, hShows]
  · intro r effect hEffect
    obtain ⟨closing, hShows⟩ := hClose r
    rw [Act.map_eq, hShows] at hEffect
    obtain ⟨e, -, he⟩ := List.mem_flatMap.mp hEffect
    exact log.isEntry_shows e effect he

theorem reports_closeRegister [Nesting] {c : Client} (hLog : c.log.NeverFails) (port : Number)
    (r : Registration) :
    Reports (fun o => do
      pure (.outcome (← c.closeRegister port r.name (c.url port registerPath) o)))
      Result.outcome := by
  apply reports_of_shows
  intro o
  obtain ⟨closing, -, hClose⟩ := closes_register hLog port r o
  exact ⟨closing, hClose⟩

theorem reports_closeHealth [Nesting] {c : Client} (hLog : c.log.NeverFails) (port : Number) :
    Reports (fun o => do pure (.healthy (← c.closeHealth (c.url port healthPath) o)))
      Result.healthy := by
  apply reports_of_shows
  intro o
  obtain ⟨closing, -, hClose⟩ := closes_checkHealth hLog port o
  exact ⟨closing, hClose⟩

/-! ## An operation alone -/

/-- Run alone an operation comes to the verdict of an exchange, and shows that exchange between
entries of the log. -/
structure Performs [Nesting] {β : Type} (c : Client) (op : Operation) (x : Exchange β)
    (value : β → Result) (now : Nat) (s : Script) : Prop where
  results : (soloAt now (c.call op) s).results =
    [(x.verdict s).map fun had => ⟨had.2.map value, now + had.1⟩]
  pending : (soloAt now (c.call op) s).pending = 0
  events : ∃ before after : List Event, (∀ e ∈ before ++ after, e.effect.isEntry) ∧
    (soloAt now (c.call op) s).notes.map Note.event =
      before ++ (⟨now, .sent x.request false⟩ :: x.seen s now) ++ after

theorem performs_of_call [Nesting] {β : Type} {c : Client} {op : Operation} {x : Exchange β}
    {close : Except Failure β → Act Result} {value : β → Result}
    (hCall : (c.call op).result = .ok (Call.closing x close))
    (hOpening : ∀ e ∈ (c.call op).effects, e.isEntry) (hReports : Reports close value)
    (now : Nat) (s : Script) : Performs c op x value now s := by
  obtain ⟨hResults, hPending, hEvents⟩ := soloAt_closing hCall now s
  constructor
  · simpa only [hReports.result] using hResults
  · exact hPending
  · refine ⟨(c.call op).effects.map (Event.mk now),
      closed close (Course.later now (x.verdict s)), ?_, ?_⟩
    · intro e he
      rcases List.mem_append.mp he with he | he
      · obtain ⟨effect, hEffect, rfl⟩ := List.mem_map.mp he
        exact hOpening effect hEffect
      · unfold closed at he
        split at he
        · simp at he
        · obtain ⟨effect, hEffect, rfl⟩ := List.mem_map.mp he
          exact hReports.entries _ effect hEffect
    · rw [hEvents]
      simp

theorem register_of_valid [Nesting] {c : Client} (hLog : c.log.NeverFails) {port : Number}
    (hPort : validPort port) (r : Registration) :
    c.register port r = ⟨c.log.shows (c.sendingEntry port r),
      .ok (Call.closing (c.registering port r)
        (c.closeRegister port r.name (c.url port registerPath)))⟩ := by
  have hBind := bind_write hLog (c.sendingEntry port r) fun _ =>
    (pure (Call.closing (c.registering port r)
      (c.closeRegister port r.name (c.url port registerPath))) : Act (Call Outcome))
  rw [register, checkPort_of_valid hPort, Act.bind_of_ok rfl]
  refine hBind.trans ?_
  simp [Pure.pure, Act.pure]

theorem call_register [Nesting] {c : Client} (hLog : c.log.NeverFails) {port : Number}
    (hPort : validPort port) (r : Registration) :
    c.call (.register port r) = ⟨(c.register port r).effects,
      .ok (Call.closing (c.registering port r) fun o => do
        pure (.outcome (← c.closeRegister port r.name (c.url port registerPath) o)))⟩ := by
  rw [call, register_of_valid hLog hPort, Act.bind_of_ok rfl, Call.mapAct_closing]
  simp [Pure.pure, Act.pure]

theorem call_checkHealth [Nesting] (c : Client) {port : Number} (hPort : validPort port) :
    c.call (.checkHealth port) = ⟨[], .ok (Call.closing (c.probing port) fun o => do
      pure (.healthy (← c.closeHealth (c.url port healthPath) o)))⟩ := by
  have hProbe : c.checkHealth port = ⟨[], .ok (Call.closing (c.probing port)
      (c.closeHealth (c.url port healthPath)))⟩ := by
    rw [checkHealth, checkPort_of_valid hPort, Act.bind_of_ok rfl]
    rfl
  rw [call, hProbe, Act.bind_of_ok rfl, Call.mapAct_closing]
  rfl

theorem performs_register [Nesting] {c : Client} (hLog : c.log.NeverFails) {port : Number}
    (hPort : validPort port) (r : Registration) (now : Nat) (s : Script) :
    Performs c (.register port r) (c.registering port r) .outcome now s := by
  have hCall := call_register hLog hPort r
  apply performs_of_call
  · rw [hCall]
  · rw [hCall, register_of_valid hLog hPort]
    exact c.log.isEntry_shows _
  · exact reports_closeRegister hLog port r

theorem performs_checkHealth [Nesting] {c : Client} (hLog : c.log.NeverFails) {port : Number}
    (hPort : validPort port) (now : Nat) (s : Script) :
    Performs c (.checkHealth port) (c.probing port) .healthy now s := by
  have hCall := c.call_checkHealth hPort
  apply performs_of_call
  · rw [hCall]
  · rw [hCall]
    simp
  · exact reports_closeHealth hLog port

end Client

end Enroll
