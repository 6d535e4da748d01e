import Enroll.Failure

/-!
# Plain texts of values

What a value reads as where a text is wanted, and as what number where one is wanted. A text is
itself, an array is its elements with commas between them, and an object shows nothing of what is
in it. An object with a member `toString` has no text, and arrays that nest too deep have none.
-/

namespace Enroll

/-- What an object without a text fails with. -/
def Failure.noPlainText : Failure :=
  .error .type "Cannot convert object to primitive value" none none

namespace Json

mutual

def plainWithin : Nat → Json → Except Failure Text
  | _, .null => .ok "null"
  | _, .bool b => .ok (if b then "true" else "false")
  | _, .number x => .ok x.text
  | _, .string t => .ok t
  | _, .object ms =>
    if Members.has ms "toString" then .error .noPlainText else .ok "[object Object]"
  | 0, .array _ => .error .nestedTooDeep
  | limit + 1, .array xs =>
    (plainElements limit xs).map fun ts => (ts.intersperse ("," : Text)).flatten

/-- Null leaves its place in an array empty. -/
def plainElements : Nat → List Json → Except Failure (List Text)
  | _, [] => .ok []
  | limit, .null :: xs => (plainElements limit xs).map ([] :: ·)
  | limit, x :: xs =>
    (plainWithin limit x).bind fun t => (plainElements limit xs).map (t :: ·)

end

def plain [Nesting] (v : Json) : Except Failure Text := plainWithin Nesting.read v

def toNumber [Nesting] : Json → Except Failure Number
  | .null => .ok (.zero false)
  | .bool b => .ok (.ofNat (if b then 1 else 0))
  | .number x => .ok x
  | .string t => .ok (.ofText t)
  | .array xs => (plain (.array xs)).map Number.ofText
  | .object ms => (plain (.object ms)).map Number.ofText

end Json

end Enroll
