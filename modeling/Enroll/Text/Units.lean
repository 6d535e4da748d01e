/-!
# Text as 16-bit units

A text is the list of its UTF-16 units. A surrogate whose partner is missing is a unit like any
other, so every list is a text; `Text.codePoints` says what it stands for.
-/

namespace Enroll

abbrev Text := List UInt16

namespace Text

def isLead (u : UInt16) : Bool := 0xD800 ≤ u && u ≤ 0xDBFF

def isTrail (u : UInt16) : Bool := 0xDC00 ≤ u && u ≤ 0xDFFF

def isSurrogate (u : UInt16) : Bool := isLead u || isTrail u

/-- The units of one code point: two surrogates above U+FFFF. -/
def ofCodePoint (n : Nat) : Text :=
  if n < 0x10000 then [n.toUInt16]
  else [(0xD800 + (n - 0x10000) / 0x400).toUInt16, (0xDC00 + (n - 0x10000) % 0x400).toUInt16]

def ofString (s : String) : Text := s.toList.flatMap fun c => ofCodePoint c.toNat

instance : Coe String Text := ⟨ofString⟩

def pair (lead trail : UInt16) : Nat :=
  0x10000 + (lead.toNat - 0xD800) * 0x400 + (trail.toNat - 0xDC00)

/-- U+FFFD stands in for what has no code point. -/
def replacement : Nat := 0xFFFD

def lone (u : UInt16) : Nat := if isSurrogate u then replacement else u.toNat

def codePointsOnto (out : List Nat) : Text → List Nat
  | [] => out.reverse
  | [u] => (lone u :: out).reverse
  | u :: v :: rest =>
    if isLead u && isTrail v then codePointsOnto (pair u v :: out) rest
    else codePointsOnto (lone u :: out) (v :: rest)

/-- The code points of a text, a surrogate without its partner read as U+FFFD. -/
def codePoints (t : Text) : List Nat := codePointsOnto [] t

/-- The text for people to read; a surrogate without its partner shows as U+FFFD. -/
def toString (t : Text) : String := String.ofList (t.codePoints.map Char.ofNat)

def isDigit (u : UInt16) : Bool := 0x30 ≤ u && u ≤ 0x39

def ofNat (n : Nat) : Text := (Nat.toDigits 10 n).map fun c => c.toNat.toUInt16

def hexDigit (n : Nat) : UInt16 := (if n < 10 then 0x30 + n else 0x57 + n).toUInt16

def upperHexDigit (n : Nat) : UInt16 := (if n < 10 then 0x30 + n else 0x37 + n).toUInt16

/-- A unit by its number: a backslash, the letter u and four digits. -/
def hexEscape (u : UInt16) : Text :=
  [0x5C, 0x75, hexDigit (u.toNat / 0x1000), hexDigit (u.toNat / 0x100 % 16),
    hexDigit (u.toNat / 0x10 % 16), hexDigit (u.toNat % 16)]

def isLineEnd (u : UInt16) : Bool := u == 0x0A || u == 0x0D || u == 0x2028 || u == 0x2029

/-- A line ends where the text that follows is empty or starts with a line terminator. -/
def endsLine : Text → Bool
  | [] => true
  | u :: _ => isLineEnd u

/-- A line begins at the start of a text and after a line terminator. -/
def beginsLine : Option UInt16 → Bool
  | none => true
  | some u => isLineEnd u

/-- Only A to Z change. The names that are compared without case are spelled with letters that no
other letter has as its lower case. -/
def lowerUnit (u : UInt16) : UInt16 := if 0x41 ≤ u && u ≤ 0x5A then u + 0x20 else u

def lower (t : Text) : Text := t.map lowerUnit

end Text

end Enroll
