/-!
# Numbers

A number is a binary64 value held exactly: `mantissa * 2 ^ exponent` with at most 53 bits, an
infinity of either sign, or not a number. Zero keeps its sign. The mantissa has all 53 bits unless
the exponent is the least one, so each value has one form.

`Number.ofRatio` rounds a quotient of naturals to the nearest number, of two to the one with an
even mantissa, and to an infinity from `2 ^ 1024 - 2 ^ 970` on.
-/

namespace Enroll

namespace Number

def minExponent : Int := -1074

def maxExponent : Int := 971

def Canonical (mantissa : Nat) (exponent : Int) : Prop :=
  mantissa < Nat.pow 2 53 ∧ minExponent ≤ exponent ∧ exponent ≤ maxExponent ∧
    (exponent = minExponent ∨ Nat.pow 2 52 ≤ mantissa)

instance (m : Nat) (e : Int) : Decidable (Canonical m e) := by
  unfold Canonical; infer_instance

end Number

inductive Number where
  | nan
  | infinity (negative : Bool)
  | finite (negative : Bool) (mantissa : Nat) (exponent : Int)
      (canonical : Number.Canonical mantissa exponent)
  deriving DecidableEq

namespace Number

def zero (negative : Bool) : Number :=
  .finite negative 0 minExponent (by decide)

instance : Inhabited Number := ⟨zero false⟩

/-- A finite number where the form is the canonical one, an infinity where it is too great. -/
def ofBinary (negative : Bool) (mantissa : Nat) (exponent : Int) : Number :=
  if h : Canonical mantissa exponent then .finite negative mantissa exponent h
  else .infinity negative

/-- Numerator and denominator of `num / den / base ^ e`. -/
def scaled (base num den : Nat) (e : Int) : Nat × Nat :=
  if 0 ≤ e then (num, den * Nat.pow base e.toNat) else (num * Nat.pow base (-e).toNat, den)

/-- The greatest `e` with `base ^ e ≤ num / den`, given one of `e` and `e + 1` that is near. -/
def floorFrom (base num den : Nat) (near : Int) : Int :=
  if (scaled base num den near).2 ≤ (scaled base num den near).1 then near else near - 1

def floorLog2 (num den : Nat) : Int := floorFrom 2 num den ((num.log2 : Int) - den.log2)

/-- The nearest natural to a quotient, the even one of two. -/
def roundQuotient (num den : Nat) : Nat :=
  if 2 * (num % den) < den then num / den
  else if den < 2 * (num % den) then num / den + 1
  else num / den + num / den % 2

def ofRatio (negative : Bool) (num den : Nat) : Number :=
  if num = 0 then zero negative
  else
    let e := max minExponent (floorLog2 num den - 52)
    let m := roundQuotient (scaled 2 num den e).1 (scaled 2 num den e).2
    if m = Nat.pow 2 53 then ofBinary negative (Nat.pow 2 52) (e + 1) else ofBinary negative m e

def ofNat (n : Nat) : Number := ofRatio false n 1

instance (n : Nat) : OfNat Number n := ⟨ofNat n⟩

def toInt? : Number → Option Int
  | .nan | .infinity _ => none
  | .finite s m e _ =>
    let signed (n : Nat) : Int := if s then -n else n
    if 0 ≤ e then some (signed (m * Nat.pow 2 e.toNat))
    else if m % Nat.pow 2 (-e).toNat = 0 then some (signed (m / Nat.pow 2 (-e).toNat))
    else none

/-- The integer next to a finite number on the side of zero. -/
def truncate? : Number → Option Int
  | .nan | .infinity _ => none
  | .finite s m e _ =>
    let n : Nat := if 0 ≤ e then m * Nat.pow 2 e.toNat else m / Nat.pow 2 (-e).toNat
    some (if s then -n else n)

/-- Below an integer, by the order of the numbers; `nan` is neither below nor above. -/
def ltInt (x : Number) (bound : Int) : Bool :=
  match x with
  | .nan => false
  | .infinity s => s
  | .finite s m e _ =>
    let signed : Int := if s then -(m : Int) else m
    if 0 ≤ e then signed * (Nat.pow 2 e.toNat : Nat) < bound
    else signed < bound * (Nat.pow 2 (-e).toNat : Nat)

def gtInt (x : Number) (bound : Int) : Bool :=
  match x with
  | .nan => false
  | .infinity s => !s
  | .finite s m e _ =>
    let signed : Int := if s then -(m : Int) else m
    if 0 ≤ e then bound < signed * (Nat.pow 2 e.toNat : Nat)
    else bound * (Nat.pow 2 (-e).toNat : Nat) < signed

def isNan : Number → Bool
  | .nan => true
  | _ => false

end Number

end Enroll
