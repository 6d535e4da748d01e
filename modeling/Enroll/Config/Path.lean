import Enroll.Text.Units

/-!
# Paths

A path is a text whose parts stand between slashes. `Path.normal` takes out the parts that stay
where they are and lets each step up cancel the step down before it, without a look at any file.
`Path.relative` is the way from one directory to a path.
-/

namespace Enroll.Path

def slash : UInt16 := 0x2F

def partsOnto (out : List Text) (part : Text) : Text → List Text
  | [] => (part.reverse :: out).reverse
  | u :: rest =>
    if u == slash then partsOnto (part.reverse :: out) [] rest
    else partsOnto out (u :: part) rest

def parts (path : Text) : List Text := partsOnto [] [] path

def isAbsolute (path : Text) : Bool := path.head? == some slash

def endsInSlash (path : Text) : Bool := path.getLast? == some slash

/-- A part that leads nowhere else. -/
def stays (part : Text) : Bool := part.isEmpty || part == ("." : Text)

/-- The parts gone through, last one first, after one more. There is nothing above the root. -/
def push (rooted : Bool) (gone : List Text) (part : Text) : List Text :=
  if stays part then gone
  else if part == (".." : Text) then
    match gone with
    | [] => if rooted then [] else [part]
    | last :: before => if last == (".." : Text) then part :: last :: before else before
  else part :: gone

def normalParts (path : Text) : List Text :=
  ((parts path).foldl (push (isAbsolute path)) []).reverse

def ofParts (ps : List Text) : Text := (ps.intersperse [slash]).flatten

/-- The shortest path that leads to the same place; a slash at the end is kept. -/
def normal (path : Text) : Text :=
  let relative := ofParts (normalParts path)
  if isAbsolute path then
    slash :: relative ++ (if endsInSlash path && !relative.isEmpty then [slash] else [])
  else
    (if relative.isEmpty then ("." : Text) else relative) ++
      (if endsInSlash path then [slash] else [])

/-- One path after the other. An empty one adds nothing. -/
def join (a b : Text) : Text :=
  normal (if a.isEmpty then b else if b.isEmpty then a else a ++ slash :: b)

/-- A path as it is seen from the root; one that is not absolute goes on from `here`. -/
def resolve (here path : Text) : Text :=
  if isAbsolute path then normal path else normal (here ++ slash :: path)

def apart : List Text → List Text → List Text × List Text
  | a :: as, b :: bs => if a = b then apart as bs else (a :: as, b :: bs)
  | as, bs => (as, bs)

def relative (here path : Text) : Text :=
  let (up, down) := apart (normalParts here) (normalParts (resolve here path))
  ofParts (up.map (fun _ => (".." : Text)) ++ down)

end Enroll.Path
