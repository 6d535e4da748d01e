import Enroll.Failure

/-!
# What a service does

A script says what the other side of one request does, and when: the request is refused outright, or
it is answered after a delay or never, with a failure or a response, and the body of a response is
there at once or comes in items, each at its own time. It also says what becomes of all this when
the request is given up (`heedsAbort`, `onAbort`) or the body is no longer wanted (`Release`).
-/

namespace Enroll

inductive Happening where
  | data (bytes : List UInt8)
  | finish
  | broken (f : Failure)

structure Item where
  /-- How long after the response was made. -/
  delay : Nat
  happening : Happening

/-- What giving up an unfinished body comes to. -/
inductive Release where
  | granted
  | refused (f : Failure)
  | pending

/-- `silent` is the empty body of an answer that no service gave, so nobody sees it read. -/
inductive Body where
  | absent
  | silent
  | whole (bytes : List UInt8)
  | stream (items : List Item) (release : Release)

structure Response where
  status : Nat
  body : Body

abbrev Answer := Except Failure Response

/-- `refused` fails the request itself, before there is anything to wait for. -/
inductive Reply where
  | refused (f : Failure)
  | after (delay : Nat) (answer : Answer)
  | never

structure Script where
  reply : Reply
  heedsAbort : Bool
  onAbort : Failure

/-- What is still to come of the body once an answer is there. -/
def Answer.items : Answer → List Item
  | .ok ⟨_, .stream items _⟩ => items
  | _ => []

def maxDelay : Nat := 2147483647

/-- How long a timer set for `t` really takes: one that it cannot hold runs out after 1, and a
fraction is cut. -/
def timerDelay (t : Number) : Nat :=
  if t.isNan || t.ltInt 1 || t.gtInt maxDelay then 1
  else
    match t.truncate? with
    | some n => n.toNat
    | none => 1

end Enroll
