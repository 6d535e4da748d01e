import Enroll.Check

/-!
# Failures

Everything that a call can end with instead of a value: the causes that this library names itself,
errors of any kind that come from outside, and values that are no errors at all. The wording of
each cause is `Failure.message`.
-/

namespace Enroll

inductive ErrorKind where
  | plain
  | type
  | range
  | grammar
  | abort
  deriving DecidableEq

inductive TransportCode where
  | connectionFailed
  | timeout
  deriving DecidableEq

def TransportCode.text : TransportCode → Text
  | .connectionFailed => "CONNECTION_FAILED"
  | .timeout => "TIMEOUT"

inductive Failure where
  | invalidPort (operation : String) (port : Number)
  | invalidEnvironment (issues : List Issue)
  | userMissing
  | keyFileMissing (path : Text)
  | keyMissing
  | directoryRead
  | nestedTooDeep
  | transport (code : TransportCode) (message url : Text) (timeout : Option Number)
      (cause : Option Failure)
  | error (kind : ErrorKind) (message : Text) (code : Option Json) (cause : Option Failure)
  | value (v : Json)

instance : Inhabited Failure := ⟨.value .null⟩

namespace Failure

/-- What the service's side raises when a request is given up. -/
def aborted : Failure := .error .abort "This operation was aborted" none none

def configMessage (what : Text) : Text := "keyreg-client:config - " ++ what

def issueText (i : Issue) : Text := i.field ++ ": " ++ i.fault.message

def issuesText (issues : List Issue) : Text :=
  ((issues.map issueText).intersperse ("; " : Text)).flatten

def message : Failure → Text
  | .invalidPort operation port =>
    "keyreg-client:" ++ Text.ofString operation ++ " - Invalid port " ++
      port.text ++ ": expected an integer from 1 to 65535"
  | .invalidEnvironment issues =>
    configMessage ("Invalid environment: " ++ issuesText issues)
  | .userMissing => configMessage "KEYREG_USER (or USER) is required"
  | .keyFileMissing path => configMessage ("Key file not found: " ++ path)
  | .keyMissing => configMessage "KEYREG_KEY or KEYREG_KEY_FILE is required"
  | .directoryRead => "EISDIR: illegal operation on a directory, read"
  | .nestedTooDeep => "Maximum call stack size exceeded"
  | .transport _ m _ _ _ => m
  | .error _ m _ _ => m
  | .value _ => []

def isError : Failure → Bool
  | .value _ => false
  | _ => true

def isTransport : Failure → Bool
  | .transport _ _ _ _ _ => true
  | _ => false

def isTypeError : Failure → Bool
  | .error .type _ _ _ => true
  | _ => false

def cause? : Failure → Option Failure
  | .transport _ _ _ _ c => c
  | .error _ _ _ c => c
  | _ => none

/-- The code that an error carries, where it is a text with anything in it. -/
def codeText? : Failure → Option Text
  | .transport code _ _ _ _ => some code.text
  | .directoryRead => some "EISDIR"
  | .error _ _ (some (.string (u :: rest))) _ => some (u :: rest)
  | _ => none

/-- What kept a request from being answered: of the error underneath, if there is one, its code
and message, else the message of the failure itself. -/
def networkReason (f : Failure) : Text :=
  match f.cause? with
  | some c =>
    if c.isError then
      match c.codeText? with
      | some code => code ++ " (" ++ c.message ++ ")"
      | none => c.message
    else f.message
  | none => f.message

end Failure

end Enroll
