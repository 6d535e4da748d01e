import Enroll.Client
import Enroll.Config.FileTree

/-!
# Jobs

A job is one registration to make: whom, with which key, and where. `Job.load` takes it from an
environment, which may hold values of any kind. Every variable is checked before any is used, so
an unused one can still be at fault; then the user is settled, then the key, and only a key that is
not given outright is looked for in a file.
-/

namespace Enroll

structure Job where
  port : Number
  registration : Registration
  host : Text
  timeout : Number

/-- The variables that a job is made of, all in order. -/
structure Variables where
  port : Number
  user : Option Text
  fallbackUser : Option Text
  key : Option Text
  keyFile : Option Text
  host : Option Text
  timeout : Option Number

namespace Variables

/-- The ports that a setting may have; what a client takes is checked apart from this. -/
def portSettingRange : Range := ⟨.least 1, 65535⟩

/-- A variable that is not set reads as not a number. -/
def number [Nesting] : Option Json → Except Failure Number
  | none => .ok .nan
  | some v => v.toNumber

def number? [Nesting] : Option Json → Except Failure (Option Number)
  | none => .ok none
  | some v => v.toNumber.map some

def text? : Option Json → Option Text
  | some (.string t) => some t
  | _ => none

/-- What the variables read as, whether they can be used or not. -/
def ofMembers [Nesting] (env : Members) : Except Failure Variables := do
  let port ← number (Members.get? env "KEYREG_PORT")
  let timeout ← number? (Members.get? env "KEYREG_TIMEOUT_MS")
  pure ⟨port, text? (Members.get? env "KEYREG_USER"), text? (Members.get? env "USER"),
    text? (Members.get? env "KEYREG_KEY"), text? (Members.get? env "KEYREG_KEY_FILE"),
    text? (Members.get? env "KEYREG_HOST"), timeout⟩

def textFaults : Option Json → List Fault
  | none => []
  | some (.string t) => if t.isEmpty then [.emptyText] else []
  | some v => [.kind "string" v.kind]

def timeoutFaults : Option Number → List Fault
  | none => []
  | some x => timeoutRange.faults x

def issuesOf (name : String) (faults : List Fault) : List Issue := faults.map fun f => ⟨name, f⟩

def textIssues (env : Members) (name : String) : List Issue :=
  issuesOf name (textFaults (Members.get? env name))

def issues (env : Members) (v : Variables) : List Issue :=
  issuesOf "KEYREG_PORT" (portSettingRange.faults v.port) ++ textIssues env "KEYREG_USER" ++
    textIssues env "USER" ++ textIssues env "KEYREG_KEY" ++ textIssues env "KEYREG_KEY_FILE" ++
    textIssues env "KEYREG_HOST" ++ issuesOf "KEYREG_TIMEOUT_MS" (timeoutFaults v.timeout)

/-- Variables are the members of an object; anything else is at fault as a whole. -/
def check [Nesting] : Json → Except Failure Variables
  | .object env => do
    let v ← ofMembers env
    if (issues env v).isEmpty then .ok v else .error (.invalidEnvironment (issues env v))
  | v => .error (.invalidEnvironment [⟨[], .kind "object" v.kind⟩])

end Variables

namespace Job

def keyOfFile [Nesting] (files : Files) (log : Logger) (path : Text) : Act Text :=
  match files path with
  | .error _ => .fail (.keyFileMissing path)
  | .ok node => do
    log.write .info (.object [("keyPath", .string path)])
      "keyreg-client:config - Reading key from file"
    match node with
    | .directory => .fail .directoryRead
    | .file bytes => pure (Utf8.decode bytes).trim

def key [Nesting] (v : Variables) (files : Files) (log : Logger) : Act Text :=
  match v.key, v.keyFile with
  | some k, _ => pure k
  | none, some path => do
    let k ← keyOfFile files log path
    if k = [] then .fail .keyMissing else pure k
  | none, none => .fail .keyMissing

def user (v : Variables) : Act Text :=
  match v.user.or v.fallbackUser with
  | some u => pure u
  | none => .fail .userMissing

def load [Nesting] (env : Json) (files : Files) (log : Logger) : Act Job := do
  let v ← Act.ofExcept (Variables.check env)
  let u ← user v
  let k ← key v files log
  pure ⟨v.port, ⟨u, k⟩, v.host.getD Client.defaultHost, v.timeout.getD Client.defaultTimeout⟩

end Job

end Enroll
