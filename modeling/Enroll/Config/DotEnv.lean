import Enroll.Text.Blank
import Enroll.Text.Pattern

/-!
# Dotenv files

A dotenv file sets names to values, one a line but for quoted values, which may go over several.
`DotEnv.entry` is the pattern of one setting; what does not match it is passed over. A value loses
the blanks around it and then its quotes; within double quotes `\n` and `\r` are written out.
-/

namespace Enroll.DotEnv

def isKeyUnit (u : UInt16) : Bool :=
  Text.isDigit u || (0x41 ≤ u && u ≤ 0x5A) || (0x61 ≤ u && u ≤ 0x7A) || u == 0x5F || u == 0x2E ||
    u == 0x2D

/-- An unquoted value ends with its line or before a number sign. -/
def isPlainUnit (u : UInt16) : Bool := u != 0x23 && u != 0x0A && u != 0x0D

def quotes : List UInt16 := [0x27, 0x22, 0x60]

def blanks (least : Nat) (greedy : Bool) : Pattern := .run Text.isBlank least greedy

/-- A value in quotes, in which the quote may stand behind a backslash. -/
def quoted (q : UInt16) : Pattern :=
  .all [blanks 0 true, .unit q, .many (.either (.all [.unit 0x5C, .unit q]) (.one (· != q))),
    .unit q]

def anyQuoted : Pattern :=
  .either (quoted 0x27) (.either (quoted 0x22) (.either (quoted 0x60) (.run isPlainUnit 1 true)))

/-- One setting: its key is group 1 and its value, if it has one, group 2. -/
def entry : Pattern :=
  .all [.lineStart, blanks 0 true, .opt (.all [.literal "export", blanks 1 true]),
    .group 1 (.run isKeyUnit 1 true),
    .either (.all [blanks 0 true, .unit 0x3D, blanks 0 false]) (.all [.unit 0x3A, blanks 1 false]),
    .opt (.group 2 anyQuoted), blanks 0 true,
    .opt (.all [.unit 0x23, .run (fun u => !Text.isLineEnd u) 0 true]), .lineEnd]

def joinLinesOnto (out : Text) : Text → Text
  | [] => out.reverse
  | [u] => ((if u == 0x0D then 0x0A else u) :: out).reverse
  | u :: v :: rest =>
    if u == 0x0D then
      if v == 0x0A then joinLinesOnto (0x0A :: out) rest
      else joinLinesOnto (0x0A :: out) (v :: rest)
    else joinLinesOnto (u :: out) (v :: rest)

/-- What is before the last quote that ends a line, backwards, and what is after it. -/
def closing (q : UInt16) (seen : Text) (best : Option (Text × Text)) : Text →
    Option (Text × Text)
  | [] => best
  | u :: rest =>
    closing q (u :: seen)
      (if u == q && Text.endsLine rest then some (seen, rest) else best) rest

/-- Takes away the quotes around each stretch that begins a line with a quote and ends one with
the same quote. -/
def unquoteOnto (out : Text) : Nat → Option UInt16 → Text → Text
  | 0, _, _ => out.reverse
  | _, _, [] => out.reverse
  | fuel + 1, before, u :: rest =>
    if Text.beginsLine before && quotes.contains u then
      match closing u [] none rest with
      | some (inner, after) => unquoteOnto (inner ++ out) fuel (some u) after
      | none => unquoteOnto (u :: out) fuel (some u) rest
    else unquoteOnto (u :: out) fuel (some u) rest

def unquote (t : Text) : Text := unquoteOnto [] (t.length + 1) none t

/-- A backslash before `letter` makes one unit with it. -/
def unescapeOnto (letter unit : UInt16) (out : Text) : Text → Text
  | [] => out.reverse
  | [u] => (u :: out).reverse
  | u :: v :: rest =>
    if u == 0x5C && v == letter then unescapeOnto letter unit (unit :: out) rest
    else unescapeOnto letter unit (u :: out) (v :: rest)

def unescape (t : Text) : Text := unescapeOnto 0x72 0x0D [] (unescapeOnto 0x6E 0x0A [] t)

def value (raw : Text) : Text :=
  let trimmed := raw.trim
  match trimmed with
  | 0x22 :: _ => unescape (unquote trimmed)
  | _ => unquote trimmed

def setting? (c : Cursor) : Option (Text × Text) :=
  (c.group? 1).map fun key => (key, value ((c.group? 2).getD []))

def settings (t : Text) : List (Text × Text) :=
  (entry.search (joinLinesOnto [] t)).filterMap setting?

end Enroll.DotEnv
