import Enroll.Text.Units

/-!
# Patterns over text

A pattern is matched at a place in a text by trying its choices in their order: the first branch
before the second, a greedy run from its longest form down, a lazy one from its shortest up. What
follows is handed on as a continuation, so a choice that does not lead on is taken back.
-/

namespace Enroll

/-- What a group has matched: the first units of the text from its start on. -/
structure Capture where
  group : Nat
  origin : Text
  length : Nat

/-- A place in a text: how many units are before it, the last of them, the text after it, and the
groups captured so far, latest first. -/
structure Cursor where
  place : Nat
  before : Option UInt16
  rest : Text
  captures : List Capture

inductive Pattern where
  | empty
  | one (accepts : UInt16 → Bool)
  | run (accepts : UInt16 → Bool) (least : Nat) (greedy : Bool)
  | seq (first second : Pattern)
  | either (first second : Pattern)
  | many (p : Pattern)
  | group (n : Nat) (p : Pattern)
  | lineStart
  | lineEnd

namespace Cursor

def start (t : Text) : Cursor := ⟨0, none, t, []⟩

def advance? (accepts : UInt16 → Bool) (c : Cursor) : Option Cursor :=
  match c.rest with
  | [] => none
  | u :: rest =>
    if accepts u then some { c with place := c.place + 1, before := some u, rest := rest } else none

/-- The places that a run of accepted units reaches, the furthest first. -/
def reachOnto (accepts : UInt16 → Bool) (captures : List Capture) (out : List Cursor)
    (place : Nat) (before : Option UInt16) : Text → List Cursor
  | [] => ⟨place, before, [], captures⟩ :: out
  | u :: rest =>
    if accepts u then
      reachOnto accepts captures (⟨place, before, u :: rest, captures⟩ :: out) (place + 1) (some u)
        rest
    else ⟨place, before, u :: rest, captures⟩ :: out

def reach (accepts : UInt16 → Bool) (c : Cursor) : List Cursor :=
  reachOnto accepts c.captures [] c.place c.before c.rest

def capture (n : Nat) (origin c : Cursor) : Cursor :=
  { c with captures := ⟨n, origin.rest, c.place - origin.place⟩ :: c.captures }

def group? (c : Cursor) (n : Nat) : Option Text :=
  (c.captures.find? fun g => g.group == n).map fun g => g.origin.take g.length

end Cursor

namespace Pattern

/-- As many rounds of `body` as lead on. Each of them consumes something, so the length of the
text is enough fuel. -/
def rounds (body : Cursor → (Cursor → Option Cursor) → Option Cursor)
    (next : Cursor → Option Cursor) : Nat → Cursor → Option Cursor
  | 0, c => next c
  | fuel + 1, c =>
    (body c fun c' => rounds body next fuel c').or (next c)

def matchThen : Pattern → Cursor → (Cursor → Option Cursor) → Option Cursor
  | .empty, c, next => next c
  | .one accepts, c, next => (c.advance? accepts).bind next
  | .run accepts least greedy, c, next =>
    let ends := c.reach accepts
    let long := ends.take (ends.length - least)
    (if greedy then long else long.reverse).findSome? next
  | .seq p q, c, next => matchThen p c fun c' => matchThen q c' next
  | .either p q, c, next => (matchThen p c next).or (matchThen q c next)
  | .many p, c, next => rounds (matchThen p) next c.rest.length c
  | .group n p, c, next => matchThen p c fun c' => next (Cursor.capture n c c')
  | .lineStart, c, next => if Text.beginsLine c.before then next c else none
  | .lineEnd, c, next => if Text.endsLine c.rest then next c else none

def unit (u : UInt16) : Pattern := .one (· == u)

def opt (p : Pattern) : Pattern := .either p .empty

def all (ps : List Pattern) : Pattern := ps.foldr .seq .empty

def literal (t : Text) : Pattern := all (t.map unit)

/-- All matches in a text from left to right, each search going on where the last match ended. -/
def searchOnto (p : Pattern) (out : List Cursor) : Nat → Cursor → List Cursor
  | 0, _ => out.reverse
  | fuel + 1, c =>
    match p.matchThen c some with
    | some found => searchOnto p (found :: out) fuel { found with captures := [] }
    | none =>
      match c.rest with
      | [] => out.reverse
      | u :: rest => searchOnto p out fuel ⟨c.place + 1, some u, rest, []⟩

/-- Each match as the place where it ended. Only patterns that consume something are searched. -/
def search (p : Pattern) (t : Text) : List Cursor :=
  searchOnto p [] (t.length + 1) (Cursor.start t)

end Pattern

end Enroll
