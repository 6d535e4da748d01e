import Enroll.Number.Decimal
import Enroll.Text.Blank

/-!
# Number literals

`Literal.strict?` and `Literal.lenient?` read the longest numeral at the start of a text; the second
also takes one that leaves out the digits on one side of its point, or starts with zeros.
`Number.ofText` reads a whole text that stands for a number: blanks around it do not count, the
empty text is zero, and what is no literal is not a number.
-/

namespace Enroll

namespace Literal

def digitValue (u : UInt16) : Nat := u.toNat - 0x30

def natOf (digits : Text) : Nat := digits.foldl (fun n u => n * 10 + digitValue u) 0

def digits (t : Text) : Text × Text := (t.takeWhile Text.isDigit, t.dropWhile Text.isDigit)

/-- Takes one sign, if there is one: whether it is a minus, and the rest. -/
def sign (t : Text) : Bool × Text :=
  match t with
  | [] => (false, [])
  | u :: rest =>
    if u == 0x2D then (true, rest) else if u == 0x2B then (false, rest) else (false, u :: rest)

/-- An exponent part, if the text starts with a whole one. -/
def exponent (t : Text) : Int × Text :=
  match t with
  | [] => (0, [])
  | u :: rest =>
    if u == 0x65 || u == 0x45 then
      let (negative, afterSign) := sign rest
      match digits afterSign with
      | ([], _) => (0, u :: rest)
      | (ds, after) => (if negative then -(natOf ds : Int) else natOf ds, after)
    else (0, u :: rest)

def ofParts (whole fraction : Text) (e : Int) : Decimal :=
  ⟨natOf (whole ++ fraction), e - fraction.length⟩

/-- The digits after a point, if the text starts with a point and at least one. -/
def fraction (t : Text) : Text × Text :=
  match t with
  | [] => ([], [])
  | u :: rest =>
    if u == 0x2E then
      match digits rest with
      | ([], _) => ([], u :: rest)
      | (ds, after) => (ds, after)
    else ([], u :: rest)

/-- A strict numeral without its sign: no leading zero, digits on both sides of a point. -/
def strict? (t : Text) : Option (Decimal × Text) :=
  let whole : Option (Text × Text) :=
    match t with
    | [] => none
    | u :: rest =>
      if u == 0x30 then some ([u], rest)
      else if Text.isDigit u then some (digits (u :: rest))
      else none
  whole.map fun (ws, afterWhole) =>
    let (fs, afterFraction) := fraction afterWhole
    let (e, after) := exponent afterFraction
    (ofParts ws fs e, after)

/-- A numeral without its sign that may leave out the digits on one side of its point. -/
def lenient? (t : Text) : Option (Decimal × Text) :=
  let (ws, afterWhole) := digits t
  let (fs, afterFraction) : Text × Text :=
    match afterWhole with
    | [] => ([], [])
    | u :: rest => if u == 0x2E then digits rest else ([], u :: rest)
  if ws.isEmpty && fs.isEmpty then none
  else
    let (e, after) := exponent afterFraction
    some (ofParts ws fs e, after)

/-- The value of a digit in a base up to sixteen, letters of either case. -/
def radixDigit? (base : Nat) (u : UInt16) : Option Nat :=
  let v :=
    if Text.isDigit u then digitValue u
    else if 0x61 ≤ u && u ≤ 0x66 then u.toNat - 0x61 + 10
    else if 0x41 ≤ u && u ≤ 0x46 then u.toNat - 0x41 + 10
    else base
  if v < base then some v else none

def radixValue? (base : Nat) : Text → Option Nat
  | [] => none
  | ds => ds.foldlM (fun n u => (radixDigit? base u).map (n * base + ·)) 0

def radix? (u : UInt16) : Option Nat :=
  if u == 0x78 || u == 0x58 then some 16
  else if u == 0x6F || u == 0x4F then some 8
  else if u == 0x62 || u == 0x42 then some 2
  else none

def based? (t : Text) : Option Nat :=
  match t with
  | zero :: letter :: ds =>
    if zero == 0x30 then (radix? letter).bind fun base => radixValue? base ds else none
  | _ => none

end Literal

namespace Number

/-- A signed literal that fills the text. -/
def ofSigned? (t : Text) : Option Number :=
  let (negative, rest) := Literal.sign t
  if rest = "Infinity" then some (.infinity negative)
  else
    match Literal.lenient? rest with
    | some (d, []) => some (ofDecimal negative d)
    | _ => none

def ofText (t : Text) : Number :=
  match t.trim with
  | [] => zero false
  | u :: rest =>
    match Literal.based? (u :: rest) with
    | some n => ofNat n
    | none => (ofSigned? (u :: rest)).getD .nan

end Number

end Enroll
