import Enroll.Json.Value

/-!
# JSON tokens

A token is a bracket, a colon, a comma, a string or a word. A word is a longest stretch of units
that neither delimit nor are space, and it has to be a literal name or a strict numeral as a whole.
The scanner reads a text unit by unit, so its state says all about what was read before.
-/

namespace Enroll.Json

inductive Token where
  | openArray
  | closeArray
  | openObject
  | closeObject
  | colon
  | comma
  | string (t : Text)
  | scalar (v : Json)

def isSpace (u : UInt16) : Bool := u == 0x20 || u == 0x09 || u == 0x0A || u == 0x0D

def punctuation? (u : UInt16) : Option Token :=
  if u == 0x5B then some .openArray
  else if u == 0x5D then some .closeArray
  else if u == 0x7B then some .openObject
  else if u == 0x7D then some .closeObject
  else if u == 0x3A then some .colon
  else if u == 0x2C then some .comma
  else none

def numeral? (w : Text) : Option Number :=
  let (negative, rest) : Bool × Text :=
    match w with
    | [] => (false, [])
    | u :: rest => if u == 0x2D then (true, rest) else (false, u :: rest)
  match Literal.strict? rest with
  | some (d, []) => some (Number.ofDecimal negative d)
  | _ => none

def word? (w : Text) : Option Json :=
  if w = "null" then some .null
  else if w = "true" then some (.bool true)
  else if w = "false" then some (.bool false)
  else (numeral? w).map .number

/-- What a unit after a backslash stands for, but for `u`. -/
def escape? (u : UInt16) : Option UInt16 :=
  if u == 0x22 || u == 0x5C || u == 0x2F then some u
  else if u == 0x62 then some 0x08
  else if u == 0x66 then some 0x0C
  else if u == 0x6E then some 0x0A
  else if u == 0x72 then some 0x0D
  else if u == 0x74 then some 0x09
  else none

/-- Where the scanner is. Texts in it are read backwards. -/
inductive Scan where
  | between
  | word (units : Text)
  | quoted (units : Text)
  | escaped (units : Text)
  | hex (units : Text) (owed : Nat) (value : Nat)

/-- The scanner between tokens, with the tokens brought out so far, backwards. -/
def scanBetween (out : List Token) (u : UInt16) : Scan × List Token :=
  if isSpace u then (.between, out)
  else if u == 0x22 then (.quoted [], out)
  else
    match punctuation? u with
    | some p => (.between, p :: out)
    | none => (.word [u], out)

def isDelimiter (u : UInt16) : Bool := isSpace u || u == 0x22 || (punctuation? u).isSome

def scanUnit (s : Scan) (out : List Token) (u : UInt16) : Option (Scan × List Token) :=
  match s with
  | .between => some (scanBetween out u)
  | .word w =>
    if isDelimiter u then (word? w.reverse).map fun v => scanBetween (.scalar v :: out) u
    else some (.word (u :: w), out)
  | .quoted t =>
    if u == 0x22 then some (.between, .string t.reverse :: out)
    else if u == 0x5C then some (.escaped t, out)
    else if u < 0x20 then none
    else some (.quoted (u :: t), out)
  | .escaped t =>
    if u == 0x75 then some (.hex t 4 0, out)
    else (escape? u).map fun v => (.quoted (v :: t), out)
  | .hex t owed value =>
    (Literal.radixDigit? 16 u).map fun d =>
      if owed ≤ 1 then (.quoted ((value * 16 + d).toUInt16 :: t), out)
      else (.hex t (owed - 1) (value * 16 + d), out)

def scanEnd (s : Scan) (out : List Token) : Option (List Token) :=
  match s with
  | .between => some out.reverse
  | .word w => (word? w.reverse).map fun v => (.scalar v :: out).reverse
  | .quoted _ | .escaped _ | .hex _ _ _ => none

def scan (s : Scan) (out : List Token) : Text → Option (List Token)
  | [] => scanEnd s out
  | u :: rest =>
    match scanUnit s out u with
    | none => none
    | some (s', out') => scan s' out' rest

def tokens? (t : Text) : Option (List Token) := scan .between [] t

end Enroll.Json
