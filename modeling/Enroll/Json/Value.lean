import Enroll.Number.Literal

/-!
# JSON values

An object is the list of its members in order. `Members.set` is the one way in which members come
to be: a key that is there keeps its place and takes the new value, a new array index goes among
the indices, which come first and ascend, and any other new key goes last.
-/

namespace Enroll

inductive Json where
  | null
  | bool (b : Bool)
  | number (x : Number)
  | string (t : Text)
  | array (elements : List Json)
  | object (members : List (Text × Json))

abbrev Members := List (Text × Json)

instance : Inhabited Json := ⟨.null⟩

namespace Members

def maxIndex : Nat := 4294967294

/-- The array index that a key spells, in the one spelling that an index has: at most ten digits,
and no zero before others. -/
def index? (key : Text) : Option Nat :=
  match key with
  | [] => none
  | u :: rest =>
    if Text.isDigit u && (u != 0x30 || rest.isEmpty) && rest.length < 10 && rest.all Text.isDigit &&
        Literal.natOf (u :: rest) ≤ maxIndex then
      some (Literal.natOf (u :: rest))
    else none

/-- The members that stand before a new index. -/
def precedes (i : Nat) (m : Text × Json) : Bool :=
  match index? m.1 with
  | some j => j < i
  | none => false

def has (ms : Members) (key : Text) : Bool := ms.any fun m => m.1 == key

def get? (ms : Members) (key : Text) : Option Json :=
  (ms.find? fun m => m.1 == key).map Prod.snd

def replace (ms : Members) (key : Text) (v : Json) : Members :=
  ms.map fun m => if m.1 == key then (m.1, v) else m

def insert (ms : Members) (key : Text) (v : Json) : Members :=
  match index? key with
  | some i => ms.takeWhile (precedes i) ++ (key, v) :: ms.dropWhile (precedes i)
  | none => ms ++ [(key, v)]

def set (ms : Members) (key : Text) (v : Json) : Members :=
  if has ms key then replace ms key v else insert ms key v

def setAll (ms news : Members) : Members := news.foldl (fun ms m => set ms m.1 m.2) ms

end Members

namespace Json

def kind : Json → String
  | .null => "null"
  | .bool _ => "boolean"
  | .number x => if x.isNan then "nan" else "number"
  | .string _ => "string"
  | .array _ => "array"
  | .object _ => "object"

/-- What a value contributes where its members are spread into an object: an array or a string
counts as its elements under their indices, and what has no members adds nothing. -/
def members : Json → Members
  | .object ms => ms
  | .array xs => xs.mapIdx fun i x => (Text.ofNat i, x)
  | .string t => t.mapIdx fun i u => (Text.ofNat i, .string [u])
  | .null | .bool _ | .number _ => []

end Json

/-- How deep a value may nest where it is printed, and where it is read as a text. It is the stack
that sets these limits, so nothing is taken for granted of them, except that an object with nothing
nested in it can be printed. -/
class Nesting where
  printed : Nat
  read : Nat
  printed_pos : 0 < printed

/-- What the executables are given. -/
instance (priority := low) Nesting.ofExecutable : Nesting := ⟨4000, 3000, by decide⟩

mutual

def Json.fits : Nat → Json → Bool
  | 0, .array _ => false
  | 0, .object _ => false
  | limit + 1, .array xs => Json.elementsFit limit xs
  | limit + 1, .object ms => Json.membersFit limit ms
  | _, .null => true
  | _, .bool _ => true
  | _, .number _ => true
  | _, .string _ => true

def Json.elementsFit (limit : Nat) : List Json → Bool
  | [] => true
  | x :: xs => Json.fits limit x && Json.elementsFit limit xs

def Json.membersFit (limit : Nat) : List (Text × Json) → Bool
  | [] => true
  | (_, x) :: ms => Json.fits limit x && Json.membersFit limit ms

end

end Enroll
