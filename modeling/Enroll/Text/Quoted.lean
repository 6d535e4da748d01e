import Enroll.Text.Units

/-!
# Quoted texts

A text as a message shows it: between marks that it does not hold itself, if there are such, and
with an escape for what cannot be seen. A long text is shown line by line, and `Quoted.abridged`
ends what is shown at a limit.
-/

namespace Enroll.Quoted

/-- Whether a dollar sign stands before a brace; such a text does not go between backquotes. -/
def opensBrace : Text → Bool
  | [] => false
  | [_] => false
  | u :: v :: rest => (u == 0x24 && v == 0x7B) || opensBrace (v :: rest)

/-- The single quote, else the double quote, else the backquote, as the text allows; if it allows
none, the single quote with an escape. -/
def mark (t : Text) : UInt16 :=
  if !t.contains 0x27 then 0x27
  else if !t.contains 0x22 then 0x22
  else if !t.contains 0x60 && !opensBrace t then 0x60
  else 0x27

/-- A unit that is not half of a pair of surrogates, between marks. -/
def escape (mark u : UInt16) : Text :=
  if u == mark || u == 0x5C then [0x5C, u]
  else if u == 0x08 then [0x5C, 0x62]
  else if u == 0x09 then [0x5C, 0x74]
  else if u == 0x0A then [0x5C, 0x6E]
  else if u == 0x0C then [0x5C, 0x66]
  else if u == 0x0D then [0x5C, 0x72]
  else if u < 0x20 || (0x7F ≤ u && u < 0xA0) then
    [0x5C, 0x78, Text.upperHexDigit (u.toNat / 16), Text.upperHexDigit (u.toNat % 16)]
  else if Text.isSurrogate u then Text.hexEscape u
  else [u]

def insideOnto (mark : UInt16) (out : Text) : Text → Text
  | [] => out.reverse
  | [u] => ((escape mark u).reverse ++ out).reverse
  | u :: v :: rest =>
    if Text.isLead u && Text.isTrail v then insideOnto mark (v :: u :: out) rest
    else insideOnto mark ((escape mark u).reverse ++ out) (v :: rest)

def quote (t : Text) : Text := mark t :: (insideOnto (mark t) [] t ++ [mark t])

def linesOnto (out : List Text) (line : Text) : Text → List Text
  | [] => (if line.isEmpty then out else line.reverse :: out).reverse
  | u :: rest =>
    if u == 0x0A then linesOnto ((u :: line).reverse :: out) [] rest
    else linesOnto out (u :: line) rest

/-- A text with more units than this is shown line by line. -/
def maxLine : Nat := 124

def shown (t : Text) : Text :=
  if maxLine < t.length then
    (((linesOnto [] [] t).map quote).intersperse (" +\n  " : Text)).flatten
  else quote t

def maxShown : Nat := 128

def abridged (t : Text) : Text :=
  if maxShown < (shown t).length then (shown t).take maxShown ++ "..." else shown t

end Enroll.Quoted
