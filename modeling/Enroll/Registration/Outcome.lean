import Enroll.Effect
import Enroll.Registration.Diagnostic

/-!
# Registrations and their outcomes

The requests that the key service understands, and what comes of a registration: it is accepted,
or turned down with a status and a diagnostic.
-/

namespace Enroll

def registerPath : Text := "/api/register"

/-- The path that answers as long as the service is up. -/
def healthPath : Text := "/"

/-- A name and its public key. -/
structure Registration where
  name : Text
  key : Text
  deriving DecidableEq

namespace Registration

def toJson (r : Registration) : Json :=
  .object [("name", .string r.name), ("key", .string r.key)]

/-- What is sent; name and key go through untouched. -/
def body (r : Registration) : Text := r.toJson.text

def request (url : Text) (r : Registration) : Request :=
  ⟨url, [("method", .string "POST"),
    ("headers", .object [("Content-Type", .string "application/json")]),
    ("body", .string r.body)]⟩

end Registration

def probeRequest (url : Text) : Request := ⟨url, [("method", .string "GET")]⟩

inductive Outcome where
  | accepted
  | rejected (status : Nat) (diagnostic : Diagnostic)

def granted (status : Nat) : Bool := 200 ≤ status && status < 300

end Enroll
