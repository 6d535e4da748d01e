import Enroll.Json.Plain

/-!
# Effects and acts

An effect is something that shows outside. An act is what happens at one moment: the effects it
has, in order, and the value or the failure that it ends with. Nothing happens after a failure.
-/

namespace Enroll

inductive Level where
  | debug
  | info
  | warn
  | error
  deriving DecidableEq

def Level.name : Level → String
  | .debug => "debug"
  | .info => "info"
  | .warn => "warn"
  | .error => "error"

inductive Channel where
  | level (l : Level)
  | log
  deriving DecidableEq

inductive Argument where
  | text (t : Text)
  | json (v : Json)
  | failure (f : Failure)

/-- A request as the service sees it: the method, the headers, the body and whatever else was
asked for are its options. -/
structure Request where
  url : Text
  options : Members

namespace Request

/-- A request is a GET unless it says otherwise; what it says may have no text. -/
def method [Nesting] (r : Request) : Except Failure Text :=
  match Members.get? r.options "method" with
  | none | some .null => .ok "GET"
  | some v => v.plain

end Request

inductive Effect where
  | entry (logger : Option Text) (level : Level) (context : Json) (message : Text)
  | named (name : Text)
  | console (channel : Channel) (arguments : List Argument)
  | sent (request : Request) (aborted : Bool)
  | aborted
  | read
  | cancelled
  | printed (line : Text)

structure Event where
  time : Nat
  effect : Effect

structure Act (α : Type) where
  effects : List Effect
  result : Except Failure α

namespace Act

variable {α β : Type}

def pure (a : α) : Act α := ⟨[], .ok a⟩

def fail (f : Failure) : Act α := ⟨[], .error f⟩

def emit (e : Effect) : Act Unit := ⟨[e], .ok ()⟩

def bind (x : Act α) (next : α → Act β) : Act β :=
  match x.result with
  | .ok a => ⟨x.effects ++ (next a).effects, (next a).result⟩
  | .error f => ⟨x.effects, .error f⟩

instance : Monad Act where
  pure := Act.pure
  bind := Act.bind

def ofExcept (r : Except Failure α) : Act α := ⟨[], r⟩

end Act

end Enroll
