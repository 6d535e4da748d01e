import Enroll.Json.Token

/-!
# Reading JSON

The reader runs over the tokens with the containers that are still open on a stack, so a text may
nest as deep as it likes. `Json.read?` gives the value of a text, and nothing for any text that is
not JSON as a whole.
-/

namespace Enroll.Json

/-- A container that waits for a value: the elements before it, backwards, or the members before
it and its key. -/
inductive Frame where
  | array (before : List Json)
  | object (before : Members) (key : Text)

inductive Reader where
  | value (stack : List Frame)
  | firstElement (stack : List Frame)
  | afterElement (elements : List Json) (stack : List Frame)
  | firstKey (stack : List Frame)
  | key (before : Members) (stack : List Frame)
  | colon (before : Members) (key : Text) (stack : List Frame)
  | afterMember (members : Members) (stack : List Frame)
  | done (v : Json)

namespace Reader

/-- A value is complete: the innermost open container takes it. -/
def complete (v : Json) : List Frame → Reader
  | [] => .done v
  | .array before :: stack => .afterElement (v :: before) stack
  | .object before k :: stack => .afterMember (Members.set before k v) stack

def beginValue (stack : List Frame) : Token → Option Reader
  | .openArray => some (.firstElement stack)
  | .openObject => some (.firstKey stack)
  | .string t => some (complete (.string t) stack)
  | .scalar v => some (complete v stack)
  | _ => none

def next : Reader → Token → Option Reader
  | .value stack, t => beginValue stack t
  | .firstElement stack, .closeArray => some (complete (.array []) stack)
  | .firstElement stack, t => beginValue (.array [] :: stack) t
  | .afterElement elements stack, .comma => some (.value (.array elements :: stack))
  | .afterElement elements stack, .closeArray => some (complete (.array elements.reverse) stack)
  | .firstKey stack, .closeObject => some (complete (.object []) stack)
  | .firstKey stack, .string k => some (.colon [] k stack)
  | .key before stack, .string k => some (.colon before k stack)
  | .colon before k stack, .colon => some (.value (.object before k :: stack))
  | .afterMember members stack, .comma => some (.key members stack)
  | .afterMember members stack, .closeObject => some (complete (.object members) stack)
  | _, _ => none

def run (r : Reader) : List Token → Option Reader
  | [] => some r
  | t :: ts =>
    match next r t with
    | none => none
    | some r' => run r' ts

def result? : Reader → Option Json
  | .done v => some v
  | _ => none

end Reader

def read? (t : Text) : Option Json :=
  (tokens? t).bind fun ts => ((Reader.value []).run ts).bind Reader.result?

end Enroll.Json
