import Enroll.Config.DotEnv.Loading
import Enroll.Config.Job

/-!
# The command

One run of the command: load the job, register, and say in one line why a registration was turned
down. To be turned down is an outcome like another; what keeps the run from an outcome is its
failure. The whole command takes its settings from the process and from a dotenv file beside it,
and ends the process where the run failed.
-/

namespace Enroll

namespace Command

/-- Where the line about a registration that was turned down goes. -/
inductive Printing where
  | captured
  | console
  | failing (f : Failure)

def Printing.print (p : Printing) (line : Text) : Act Unit :=
  match p with
  | .captured => .emit (.printed line)
  | .console => .emit (.console .log [.text line])
  | .failing f => .fail f

def service : Text := "keyreg-register"

def report [Nesting] (p : Printing) (outcome : Act Outcome) : Act Nat := do
  match ← outcome with
  | .accepted => pure 0
  | .rejected _ diagnostic =>
    p.print diagnostic.line
    pure 0

def run [Nesting] (env : Json) (files : Files) (source : LogSource) (p : Printing) :
    Act (Call Nat) := do
  let log ← source.resolve (service ++ ":run")
  let job ← Job.load env files log
  let client ← Client.create (some job.host) (some job.timeout) source
  let call ← client.register job.port job.registration
  pure (call.mapAct (report p))

/-- How the process ends: by itself with a code, or cut short after a failure. -/
inductive Ending where
  | finished (code : Nat)
  | fatal

structure ProcessReport where
  /-- None if the run never came to an end. -/
  ending : Option Ending
  time : Nat
  events : List Event

def fatalReport (f : Failure) : Effect :=
  .console (.level .error) [.text (service ++ ":main - Fatal:"), .failure f]

def opening [Nesting] (env : Environment) (here : Text) (files : Files) : Act (Call Nat) := do
  let env ← DotEnv.load env here files
  run (.object env.members) files
    (.lines service (some (Level.ofSetting (env.value? "LOG_LEVEL")))) .console

/-- The whole process in the working directory `here`, with the service behaving as scripted. -/
def process [Nesting] (env : Environment) (here : Text) (files : Files) (s : Script) :
    ProcessReport :=
  let r := Loop.solo (opening env here files) s
  let events := r.notes.map Note.event
  match r.results with
  | [some ⟨.ok code, _⟩] => ⟨some (.finished code), r.time, events⟩
  | [some ⟨.error f, _⟩] => ⟨some .fatal, r.time, events ++ [⟨r.time, fatalReport f⟩]⟩
  | _ => ⟨none, r.time, events⟩

end Command

end Enroll
