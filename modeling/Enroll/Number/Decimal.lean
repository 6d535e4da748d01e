import Enroll.Number.Basic
import Enroll.Text.Units

/-!
# Decimals

`Number.ofDecimal` reads `digits * 10 ^ scale` as the nearest number. `Number.shortest` goes the
other way: of the decimals that read back as the number, one with the fewest digits, and of those
the nearest, the even one of two. `Number.text` lays it out.
-/

namespace Enroll

/-- The value `digits * 10 ^ scale`. -/
structure Decimal where
  digits : Nat
  scale : Int
  deriving DecidableEq, Repr

namespace Number

/-- Scales that no number reaches are settled by size alone: from `10 ^ 310` on all is infinite,
and what is below `2 ^ -1076` is zero. -/
def ofDecimal (negative : Bool) (d : Decimal) : Number :=
  if d.digits = 0 then zero negative
  else if 310 ≤ d.scale then .infinity negative
  else if (d.digits.log2 : Int) + 1 + 3 * d.scale < -1076 ∧ d.scale < 0 then zero negative
  else ofRatio negative (scaled 10 d.digits 1 (-d.scale)).1 (scaled 10 d.digits 1 (-d.scale)).2

def decimalLength (n : Nat) : Nat := (Nat.toDigits 10 n).length

/-- The point's place: `10 ^ (place - 1) ≤ num / den < 10 ^ place`. -/
def decimalPlace (num den : Nat) : Int :=
  floorFrom 10 num den ((decimalLength num : Int) - decimalLength den) + 1

/-- Of the two neighbours of `num / den` on the grid of `10 ^ scale`, one that reads back as `x`:
the nearer where both do, the even one where they are as near. -/
def neighbour? (x : Number) (num den : Nat) (scale : Int) : Option Decimal :=
  let n := (scaled 10 num den scale).1
  let d := (scaled 10 num den scale).2
  let low : Decimal := ⟨n / d, scale⟩
  let high : Decimal := ⟨n / d + 1, scale⟩
  if ofDecimal false low = x then
    if ofDecimal false high = x then some ⟨roundQuotient n d, scale⟩ else some low
  else if ofDecimal false high = x then some high
  else none

/-- The first grid with a neighbour that reads back, from `length` digits on. -/
def shortestFrom (x : Number) (num den : Nat) (place : Int) (length : Nat) : Nat → Option Decimal
  | 0 => none
  | fuel + 1 =>
    (neighbour? x num den (place - length)).or
      (shortestFrom x num den place (length + 1) fuel)

/-- All digits of `mantissa * 2 ^ exponent`. -/
def exactDecimal (mantissa : Nat) (exponent : Int) : Decimal :=
  if 0 ≤ exponent then ⟨mantissa * Nat.pow 2 exponent.toNat, 0⟩
  else ⟨mantissa * Nat.pow 5 (-exponent).toNat, exponent⟩

/-- The shortest decimal of a positive number; seventeen digits are always enough. -/
def shortest (mantissa : Nat) (exponent : Int) : Decimal :=
  let x := ofBinary false mantissa exponent
  let num := (scaled 2 mantissa 1 (-exponent)).1
  let den := (scaled 2 mantissa 1 (-exponent)).2
  (shortestFrom x num den (decimalPlace num den) 1 17).getD (exactDecimal mantissa exponent)

/-- How a decimal is laid out: the point stands among the digits or the zeros beside them while
its place is above `leastPlace` and at most `greatestPlace`; else an exponent is written. -/
structure Layout where
  leastPlace : Int
  greatestPlace : Int

/-- Positional from `1e-6` to below `1e21`. -/
def layout : Layout := ⟨-6, 21⟩

def trimZeros (t : Text) : Text := (t.reverse.dropWhile (· == 0x30)).reverse

def zeros (n : Nat) : Text := List.replicate n 0x30

def exponentText (e : Int) : Text :=
  (if e < 0 then "e-" else "e+" : Text) ++ Text.ofNat e.natAbs

def digitsText (l : Layout) (digits : Text) (place : Int) : Text :=
  if l.leastPlace < place ∧ place ≤ l.greatestPlace then
    if place ≤ 0 then "0." ++ zeros (-place).toNat ++ digits
    else if digits.length ≤ place.toNat then digits ++ zeros (place.toNat - digits.length)
    else digits.take place.toNat ++ "." ++ digits.drop place.toNat
  else
    digits.take 1 ++ (if digits.length ≤ 1 then [] else "." ++ digits.drop 1 : Text) ++
      exponentText (place - 1)

def positiveText (mantissa : Nat) (exponent : Int) : Text :=
  let d := shortest mantissa exponent
  let all := Text.ofNat d.digits
  digitsText layout (trimZeros all) (all.length + d.scale)

/-- The text of a number. Both zeros are `0`. -/
def text : Number → Text
  | .nan => "NaN"
  | .infinity negative => if negative then "-Infinity" else "Infinity"
  | .finite negative m e _ =>
    if m = 0 then "0" else if negative then "-" ++ positiveText m e else positiveText m e

end Number

end Enroll
