import Enroll.Json.Value

/-!
# Checks

What can be wrong with a value that was handed in, one fault per broken rule, and the checks that
find all of them: a wrong kind hides the other rules, which are tested each on its own.
-/

namespace Enroll

inductive Fault where
  | missing
  | kind (expected received : String)
  | fraction
  | below (least : Nat)
  | notAbove (bound : Nat)
  | above (greatest : Nat)
  | emptyText
  deriving DecidableEq

structure Issue where
  field : Text
  fault : Fault
  deriving DecidableEq

def Fault.message : Fault → Text
  | .missing => "Required"
  | .kind expected received =>
    "Expected " ++ Text.ofString expected ++ ", received " ++
      Text.ofString received
  | .fraction => "Expected integer, received float"
  | .below n => "Number must be greater than or equal to " ++ Text.ofNat n
  | .notAbove n => "Number must be greater than " ++ Text.ofNat n
  | .above n => "Number must be less than or equal to " ++ Text.ofNat n
  | .emptyText => "String must contain at least 1 character(s)"

/-- The lower end of a range: named itself, or by the number under it. -/
inductive Lower where
  | least (n : Nat)
  | over (n : Nat)

structure Range where
  lower : Lower
  greatest : Nat

namespace Range

def lowerFaults (x : Number) : Lower → List Fault
  | .least n => if x.ltInt n then [.below n] else []
  | .over n => if x.gtInt n then [] else [.notAbove n]

def faults (r : Range) (x : Number) : List Fault :=
  if x.isNan then [.kind "number" "nan"]
  else
    (if x.toInt?.isNone then [.fraction] else []) ++ lowerFaults x r.lower ++
      (if x.gtInt r.greatest then [.above r.greatest] else [])

def faultsOf? (r : Range) : Option Json → List Fault
  | none => [.missing]
  | some (.number x) => r.faults x
  | some v => [.kind "number" v.kind]

end Range

/-- The ports that a client takes. -/
def portRange : Range := ⟨.least 1, 65535⟩

def timeoutRange : Range := ⟨.over 0, 2147483647⟩

def validPort (port : Number) : Bool := (portRange.faults port).isEmpty

end Enroll
