import Enroll.Exchange.Loop
import Enroll.Log

/-!
# The client of a key service

A client knows a host, a time limit and a logger. `Client.register` publishes a name and its key,
`Client.checkHealth` asks whether the service is up. Both refuse a port that no service can have
before anything happens. A granting status settles a registration, whatever else was sent.
-/

namespace Enroll

structure Client where
  host : Text
  timeout : Number
  log : Logger

namespace Client

def defaultHost : Text := "localhost"

def defaultTimeout : Number := 10000

/-- The part of the program that a client's entries come from. -/
def part : Text := "keyreg-client"

def create (host : Option Text) (timeout : Option Number) (source : LogSource) : Act Client := do
  let log ← source.resolve part
  pure ⟨host.getD defaultHost, timeout.getD defaultTimeout, log⟩

def url (c : Client) (port : Number) (path : Text) : Text :=
  "http://" ++ c.host ++ ":" ++ port.text ++ path

def checkPort (operation : String) (port : Number) : Act Unit :=
  if validPort port then pure () else .fail (.invalidPort operation port)

def entryText (operation : String) (what : Text) : Text :=
  part ++ ":" ++ Text.ofString operation ++ " - " ++ what

/-- A granted registration has no use for the body; any other is explained by it. -/
def registerReaction (status : Nat) : Reaction Outcome :=
  if granted status then .discardBody .accepted
  else .readBody fun t => .rejected status (.ofText t)

def logFailure [Nesting] (c : Client) (url : Text) (f : Failure) : Act Unit :=
  match f with
  | .transport code message _ _ _ =>
    c.log.write .error (.object [("url", .string url), ("code", .string code.text)])
      (entryText "register" message)
  | _ => pure ()

def logOutcome [Nesting] (c : Client) (port : Number) (name : Text) : Outcome → Act Unit
  | .accepted =>
    c.log.write .info (.object [("name", .string name), ("port", .number port)])
      (entryText "register" "Registered")
  | .rejected status diagnostic =>
    c.log.write .warn
      (.object [("name", .string name), ("port", .number port),
        ("status", .number (.ofNat status)), ("diagnostic", .string diagnostic.kind)])
      (entryText "register" "Key service rejected registration")

def closeRegister [Nesting] (c : Client) (port : Number) (name url : Text) :
    Except Failure Outcome → Act Outcome
  | .ok outcome => do
    c.logOutcome port name outcome
    pure outcome
  | .error f => do
    c.logFailure url f
    .fail f

def register [Nesting] (c : Client) (port : Number) (r : Registration) : Act (Call Outcome) := do
  checkPort "register" port
  let url := c.url port registerPath
  c.log.write .debug (.object [("url", .string url), ("name", .string r.name)])
    (entryText "register" "Sending registration")
  pure (Call.closing ⟨r.request url, c.timeout, registerReaction⟩
    (c.closeRegister port r.name url))

def closeHealth [Nesting] (c : Client) (url : Text) : Except Failure Bool → Act Bool
  | .ok healthy => do
    c.log.write .debug (.object [("url", .string url), ("healthy", .bool healthy)])
      (entryText "checkHealth" "Probed key service")
    pure healthy
  | .error f => .fail f

def checkHealth [Nesting] (c : Client) (port : Number) : Act (Call Bool) := do
  checkPort "checkHealth" port
  let url := c.url port healthPath
  pure (Call.closing ⟨probeRequest url, c.timeout, fun status => .discardBody (granted status)⟩
    (c.closeHealth url))

end Client

end Enroll
