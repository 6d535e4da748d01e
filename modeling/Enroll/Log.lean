import Enroll.Effect
import Enroll.Json.Printer
import Enroll.Text.Blank

/-!
# Logging

A logger is handed a level, a context and a message. It may lack a level, which drops the entry,
and it may fail at a level after the entry is made. A log source is what a caller configures;
`LogSource.resolve` turns it into the logger of one part of the program.
-/

namespace Enroll

namespace Level

def rank : Level → Nat
  | .debug => 10
  | .info => 20
  | .warn => 30
  | .error => 40

def ofName? (name : Text) : Option Level :=
  [Level.debug, .info, .warn, .error].find? fun l => Text.ofString l.name == name

/-- The level that a setting names, whatever its case; any other setting, and none, is `info`. -/
def ofSetting (setting : Option Text) : Level :=
  match setting with
  | none => .info
  | some t =>
    let name := t.trim.lower
    if name = "debug" then .debug
    else if name = "warn" then .warn
    else if name = "error" then .error
    else .info

end Level

inductive Logger where
  | console
  /-- Has only some levels, and may fail at some of them. -/
  | recorder (name : Option Text) (levels : List Level) (failure? : Level → Option Failure)
  /-- Writes one JSON line for each entry at or above a threshold; without one, for none. -/
  | lines (service part : Text) (threshold : Option Level)

inductive LogSource where
  | absent
  | plain (levels : List Level) (failure? : Level → Option Failure)
  | named (levels : List Level) (failure? : Level → Option Failure)
  | lines (service : Text) (threshold : Option Level)

namespace Logger

def has : Logger → Level → Bool
  | .console, _ => true
  | .recorder _ levels _, l => levels.contains l
  | .lines _ _ none, _ => false
  | .lines _ _ (some threshold), l => threshold.rank ≤ l.rank

/-- The object of one line: the level, then the context, then what the logger adds. A key of the
context stands where it stood, but only its `level` keeps its value. -/
def lineMembers (service part : Text) (l : Level) (context : Json) (message : Text) : Members :=
  let stated := Members.setAll [] context.members
  let signed := Members.set (Members.set stated "service" (.string service)) "prefix" (.string part)
  Members.set (Members.setAll [("level", .string l.name)] signed) "msg" (.string message)

def lineChannel (l : Level) : Channel := if l = .error then .level .error else .log

def record [Nesting] (logger : Logger) (l : Level) (context : Json) (message : Text) : Act Unit :=
  match logger with
  | .console => .emit (.console (.level l) [.json context, .text message])
  | .recorder name _ failure? =>
    ⟨[.entry name l context message],
      match failure? l with
      | some f => .error f
      | none => .ok ()⟩
  | .lines service part _ =>
    match Json.print? (.object (lineMembers service part l context message)) with
    | some line => .emit (.console (lineChannel l) [.text line])
    | none => .fail .nestedTooDeep

def write [Nesting] (logger : Logger) (l : Level) (context : Json) (message : Text) : Act Unit :=
  if logger.has l then logger.record l context message else pure ()

end Logger

namespace LogSource

def resolve (s : LogSource) (part : Text) : Act Logger :=
  match s with
  | .absent => pure .console
  | .plain levels failure? => pure (.recorder none levels failure?)
  | .named levels failure? => do
    Act.emit (.named part)
    pure (.recorder (some part) levels failure?)
  | .lines service threshold => pure (.lines service part threshold)

/-- Lines at or above a level that is given by its name, or `info`; nothing is above a level that
there is not. -/
def linesAbove (service : Text) (name : Option Text) : LogSource :=
  .lines service (match name with
    | none => some .info
    | some name => Level.ofName? name)

end LogSource

end Enroll
