import Enroll.Text.Units

/-!
# UTF-8

`encode` writes a text as bytes, U+FFFD for a surrogate without its partner. `decode` reads any
bytes: each longest stretch that begins a sequence and cannot go on becomes one U+FFFD. The reader
holds what is still owed in a `Sequence`, so bytes may come in any pieces.
-/

namespace Enroll.Utf8

def encodePoint (n : Nat) : List UInt8 :=
  if n < 0x80 then [n.toUInt8]
  else if n < 0x800 then [(0xC0 + n / 0x40).toUInt8, (0x80 + n % 0x40).toUInt8]
  else if n < 0x10000 then
    [(0xE0 + n / 0x1000).toUInt8, (0x80 + n / 0x40 % 0x40).toUInt8, (0x80 + n % 0x40).toUInt8]
  else
    [(0xF0 + n / 0x40000).toUInt8, (0x80 + n / 0x1000 % 0x40).toUInt8,
      (0x80 + n / 0x40 % 0x40).toUInt8, (0x80 + n % 0x40).toUInt8]

def encode (t : Text) : List UInt8 := t.codePoints.flatMap encodePoint

/-- A sequence whose first bytes are read: `owed` bytes are to come, and the next one lies
between `low` and `high`. -/
structure Sequence where
  owed : Nat
  value : Nat
  low : UInt8
  high : UInt8
  deriving DecidableEq, Repr

/-- What a byte says where a sequence may begin. -/
def begin (b : UInt8) : Option Sequence × List Nat :=
  if b < 0x80 then (none, [b.toNat])
  else if b < 0xC2 then (none, [Text.replacement])
  else if b < 0xE0 then (some ⟨1, b.toNat - 0xC0, 0x80, 0xBF⟩, [])
  else if b < 0xF0 then
    (some ⟨2, b.toNat - 0xE0, if b == 0xE0 then 0xA0 else 0x80,
      if b == 0xED then 0x9F else 0xBF⟩, [])
  else if b < 0xF5 then
    (some ⟨3, b.toNat - 0xF0, if b == 0xF0 then 0x90 else 0x80,
      if b == 0xF4 then 0x8F else 0xBF⟩, [])
  else (none, [Text.replacement])

/-- The reader after one more byte, with the code points that this byte brings out. -/
def next : Option Sequence → UInt8 → Option Sequence × List Nat
  | none, b => begin b
  | some s, b =>
    if s.low ≤ b && b ≤ s.high then
      if s.owed ≤ 1 then (none, [s.value * 0x40 + (b.toNat - 0x80)])
      else (some ⟨s.owed - 1, s.value * 0x40 + (b.toNat - 0x80), 0x80, 0xBF⟩, [])
    else ((begin b).1, Text.replacement :: (begin b).2)

def finish : Option Sequence → List Nat
  | none => []
  | some _ => [Text.replacement]

def unitsOnto (out : Text) (points : List Nat) : Text :=
  points.foldl (fun out n => (Text.ofCodePoint n).reverse ++ out) out

def decodeOnto (out : Text) (s : Option Sequence) : List UInt8 → Text
  | [] => (unitsOnto out (finish s)).reverse
  | b :: rest => decodeOnto (unitsOnto out (next s b).2) (next s b).1 rest

def decode (bytes : List UInt8) : Text := decodeOnto [] none bytes

/-- A text that went through bytes: a surrogate without its partner has become U+FFFD. -/
def throughBytes (t : Text) : Text := decode (encode t)

/-- U+FEFF, the mark that may open a body. -/
def byteOrderMark : UInt16 := 0xFEFF

def dropMark (t : Text) : Text :=
  match t with
  | [] => []
  | u :: rest => if u == byteOrderMark then rest else u :: rest

/-- The text of a body: a byte order mark at its start is not part of it, nor one after that. -/
def decodeBody (bytes : List UInt8) : Text := dropMark (dropMark (decode bytes))

end Enroll.Utf8
