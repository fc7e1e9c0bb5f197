/-
  A tree of files in memory, and paths in it.

  A path is a sequence of names separated by slashes; empty names count for nothing.  It starts
  at the root if it begins with a slash and at the working directory otherwise, and every name
  but the last must lead into a directory.  `.` stays, `..` goes up (from the root to the root),
  and a slash at the end asks for a directory, as a final `.` does.  The empty path leads
  nowhere, and a path that is too long is not looked at.
-/
import Brainfuck.World

namespace Brainfuck

abbrev FileName := List UInt8

inductive FileNode
  | file (content : List UInt8)
  | directory

/-- Files and directories by the names that lead to them from the root, and the working
    directory. -/
structure FileTree where
  nodes : List (List FileName × FileNode) := []
  workingDirectory : List FileName := []

namespace FileTree

/-- The longest name of a file. -/
def longestName : Nat := 255

/-- The longest path. -/
def longestPath : Nat := 4095

def dot : FileName := [0x2E]

def dotDot : FileName := [0x2E, 0x2E]

/-- The pieces of a path between its slashes. -/
def pieces : Path → List FileName
  | [] => [[]]
  | b :: rest =>
    if b = 0x2F then [] :: pieces rest
    else match pieces rest with
      | [] => [[b]]
      | piece :: more => (b :: piece) :: more

/-- The names of a path, without the empty ones; a slash at the end stands for a final `.`. -/
def names (path : Path) : List FileName :=
  let ps := pieces path
  ps.filter (fun p => !p.isEmpty) ++ (if ps.getLast? = some [] then [dot] else [])

/-- Where a path starts. -/
def origin (t : FileTree) (path : Path) : List FileName :=
  if path.head? = some 0x2F then [] else t.workingDirectory

/-- Where a name leads to from a place. -/
def next (place : List FileName) (name : FileName) : List FileName :=
  if name = dot then place
  else if name = dotDot then place.dropLast
  else place ++ [name]

def node? (t : FileTree) : List FileName → Option FileNode
  | [] => some .directory
  | place => t.nodes.lookup place

/-- Follow names from a place. -/
def follow (t : FileTree) (place : List FileName) : List FileName → Except ReadFailure FileNode
  | [] =>
    match t.node? place with
    | some node => .ok node
    | none => .error .notFound
  | name :: rest =>
    match t.node? place with
    | none => .error .notFound
    | some (.file _) => .error .notDirectory
    | some .directory =>
      if longestName < name.length then .error .nameTooLong
      else follow t (next place name) rest

/-- The contents of the file a path leads to. -/
def contents (t : FileTree) (path : Path) : Except ReadFailure (List UInt8) :=
  if path.isEmpty then .error .notFound
  else if longestPath < path.length then .error .nameTooLong
  else
    match t.follow (t.origin path) (names path) with
    | .error e => .error e
    | .ok (.file content) => .ok content
    | .ok .directory => .error .isDirectory

/-- The places that names pass on their way from a place, the end not included. -/
def stations (place : List FileName) : List FileName → List (List FileName)
  | [] => []
  | name :: rest => place :: stations (next place name) rest

/-- Put a node at a path.  Every place that the path passes becomes a directory. -/
def insert (t : FileTree) (path : Path) (node : FileNode) : FileTree :=
  let start := t.origin path
  let steps := names path
  { t with
    nodes := (steps.foldl next start, node)
      :: (stations start steps).map (·, FileNode.directory) ++ t.nodes }

/-- Nothing but a working directory. -/
def bare (workingDirectory : Path) : FileTree :=
  let root : FileTree := {}
  { root.insert workingDirectory .directory with
    workingDirectory := (names workingDirectory).foldl next [] }

end FileTree

end Brainfuck
