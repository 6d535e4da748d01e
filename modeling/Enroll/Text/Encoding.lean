import Enroll.Text.Utf8

/-!
# Encodings

How bytes stand for a text. An encoding is asked for by one of its names, in letters of either
case, and reads whatever bytes there are.
-/

namespace Enroll

inductive Encoding where
  | utf8
  | utf16
  | latin1
  | ascii
  | hex
  | base64
  | base64url
  deriving DecidableEq

namespace Encoding

def names : List (String × Encoding) :=
  [("utf8", .utf8), ("utf-8", .utf8), ("utf16le", .utf16), ("utf-16le", .utf16), ("ucs2", .utf16),
    ("ucs-2", .utf16), ("latin1", .latin1), ("binary", .latin1), ("ascii", .ascii), ("hex", .hex),
    ("base64", .base64), ("base64url", .base64url)]

def ofName? (name : Text) : Option Encoding :=
  (names.find? fun n => Text.ofString n.1 == name.lower).map Prod.snd

/-- Two bytes a unit, the low one first; a last byte without a partner is left out. -/
def pairsOnto (out : Text) : List UInt8 → Text
  | low :: high :: rest => pairsOnto ((low.toNat + high.toNat * 0x100).toUInt16 :: out) rest
  | _ => out.reverse

/-- The digit of six bits; the last two digits depend on the alphabet. -/
def sextet (last : Text) (n : Nat) : UInt16 :=
  if n < 26 then (0x41 + n).toUInt16
  else if n < 52 then (0x61 + n - 26).toUInt16
  else if n < 62 then (0x30 + n - 52).toUInt16
  else last.getD (n - 62) 0

/-- Three bytes are four digits. Fewer have `fill` in place of the digits that are missing. -/
def sextetsOnto (last fill out : Text) : List UInt8 → Text
  | [] => out.reverse
  | [a] => (fill ++ fill ++ (digits [a.toNat / 4, a.toNat % 4 * 16] ++ out)).reverse
  | [a, b] =>
    (fill ++ (digits [a.toNat / 4, a.toNat % 4 * 16 + b.toNat / 16, b.toNat % 16 * 4] ++
      out)).reverse
  | a :: b :: c :: rest =>
    sextetsOnto last fill
      (digits [a.toNat / 4, a.toNat % 4 * 16 + b.toNat / 16, b.toNat % 16 * 4 + c.toNat / 64,
        c.toNat % 64] ++ out) rest
where
  digits (ns : List Nat) : Text := (ns.map (sextet last)).reverse

def decode : Encoding → List UInt8 → Text
  | .utf8, bytes => Utf8.decode bytes
  | .utf16, bytes => pairsOnto [] bytes
  | .latin1, bytes => bytes.map UInt8.toUInt16
  | .ascii, bytes => bytes.map fun b => b.toUInt16 % 0x80
  | .hex, bytes => bytes.flatMap fun b => [Text.hexDigit (b.toNat / 16), Text.hexDigit (b.toNat % 16)]
  | .base64, bytes => sextetsOnto "+/" "=" [] bytes
  | .base64url, bytes => sextetsOnto "-_" [] [] bytes

end Encoding

end Enroll
