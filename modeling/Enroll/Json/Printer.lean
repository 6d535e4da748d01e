import Enroll.Json.Value

/-!
# Printing JSON

The compact text of a value: no space, `null` for what is not finite, and in strings an escape for
the quote, the backslash, everything below U+0020 and a surrogate without its partner.
-/

namespace Enroll.Json

/-- A unit that is not half of a pair of surrogates, inside quotes. -/
def quoteUnit (u : UInt16) : Text :=
  if u == 0x22 then [0x5C, 0x22]
  else if u == 0x5C then [0x5C, 0x5C]
  else if u == 0x08 then [0x5C, 0x62]
  else if u == 0x0C then [0x5C, 0x66]
  else if u == 0x0A then [0x5C, 0x6E]
  else if u == 0x0D then [0x5C, 0x72]
  else if u == 0x09 then [0x5C, 0x74]
  else if u < 0x20 || Text.isSurrogate u then Text.hexEscape u
  else [u]

/-- Writes the inside of a string; `out` and the result are backwards. -/
def quoteOnto (out : Text) : Text → Text
  | [] => out
  | [u] => (quoteUnit u).reverse ++ out
  | u :: v :: rest =>
    if Text.isLead u && Text.isTrail v then quoteOnto (v :: u :: out) rest
    else quoteOnto ((quoteUnit u).reverse ++ out) (v :: rest)

def stringOnto (out t : Text) : Text := 0x22 :: quoteOnto (0x22 :: out) t

def numberText : Number → Text
  | .nan | .infinity _ => "null"
  | .finite s m e h => Number.text (.finite s m e h)

def separate (first : Bool) (out : Text) : Text := if first then out else 0x2C :: out

mutual

/-- Writes a value; `out` and the result are backwards. -/
def writeOnto (out : Text) : Json → Text
  | .null => ("null" : Text).reverse ++ out
  | .bool true => ("true" : Text).reverse ++ out
  | .bool false => ("false" : Text).reverse ++ out
  | .number x => (numberText x).reverse ++ out
  | .string t => stringOnto out t
  | .array xs => 0x5D :: elementsOnto true (0x5B :: out) xs
  | .object ms => 0x7D :: membersOnto true (0x7B :: out) ms

def elementsOnto (first : Bool) (out : Text) : List Json → Text
  | [] => out
  | x :: xs => elementsOnto false (writeOnto (separate first out) x) xs

def membersOnto (first : Bool) (out : Text) : List (Text × Json) → Text
  | [] => out
  | (k, x) :: ms =>
    membersOnto false (writeOnto (0x3A :: stringOnto (separate first out) k) x) ms

end

def text (v : Json) : Text := (writeOnto [] v).reverse

/-- The text of a value that does not nest too deep. -/
def print? [Nesting] (v : Json) : Option Text :=
  if v.fits Nesting.printed then some v.text else none

end Enroll.Json
