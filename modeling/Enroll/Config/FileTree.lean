import Enroll.Config.Path
import Enroll.Text.Utf8

/-!
# File trees

The files of a system, by the parts of their paths from the root, and the working directory, from
which paths go that are not absolute. A directory is there if it was put there or if something lies
in it. A path is taken as bytes, and too many of them lead nowhere. It is followed part by part, so
every part before the last has to be a directory, even one that is left again.
-/

namespace Enroll

inductive Node where
  | file (bytes : List UInt8)
  | directory

inductive Absence where
  | missing
  | notDirectory
  | nameTooLong
  deriving DecidableEq

def Absence.message : Absence → Text
  | .missing => "ENOENT: no such file or directory"
  | .notDirectory => "ENOTDIR: not a directory"
  | .nameTooLong => "ENAMETOOLONG: name too long"

abbrev Files := Text → Except Absence Node

structure FileTree where
  workingDirectory : List Text
  nodes : List (List Text × Node)

namespace FileTree

/-- Whether something lies at a place or further down. -/
def reaches (tree : FileTree) (place : List Text) : Bool :=
  place.isPrefixOf tree.workingDirectory || tree.nodes.any fun n => place.isPrefixOf n.1

def nodeAt? (tree : FileTree) (place : List Text) : Option Node :=
  match tree.nodes.find? fun n => n.1 == place with
  | some n => some n.2
  | none => if tree.reaches place then some .directory else none

/-- The most bytes that one part of a path may have. -/
def maxPartLength : Nat := 255

/-- The place that one part of a path leads to. Nothing is above the root. -/
def enter (place : List Text) (part : Text) : Except Absence (List Text) :=
  if Path.stays part then .ok place
  else if part = ".." then .ok place.dropLast
  else if maxPartLength < (Utf8.encode part).length then .error .nameTooLong
  else .ok (place ++ [part])

/-- Follows a path; only a directory can be gone on from, a slash at the end included. -/
def follow (tree : FileTree) (place : List Text) : List Text → Except Absence Node
  | [] =>
    match tree.nodeAt? place with
    | some node => .ok node
    | none => .error .missing
  | part :: rest =>
    match tree.nodeAt? place with
    | some .directory => (enter place part).bind fun next => follow tree next rest
    | some (.file _) => .error .notDirectory
    | none => .error .missing

/-- The most bytes that a path may have. -/
def maxPathLength : Nat := 4095

def files (tree : FileTree) : Files := fun path =>
  if path.contains 0 then .error .missing
  else if maxPathLength < (Utf8.encode path).length then .error .nameTooLong
  else
    match Utf8.throughBytes path with
    | [] => .error .missing
    | u :: rest =>
      if u == Path.slash then tree.follow [] (Path.parts rest)
      else tree.follow tree.workingDirectory (Path.parts (u :: rest))

/-- Puts a node at a path from the working directory; what was put there before is gone. -/
def add (tree : FileTree) (path : Text) (node : Node) : FileTree :=
  let parts := (Path.parts (Utf8.throughBytes path)).filter fun p => !Path.stays p
  { tree with nodes := (tree.workingDirectory ++ parts, node) :: tree.nodes }

end FileTree

end Enroll
