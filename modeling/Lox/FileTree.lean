import Lox.Path

/-!
# File trees

The files and directories of a machine, each with its name from the root, and the directory that a
program is started in.  Looking up a path walks from component to component, from the root or from
that directory: every component but the last must be a directory, also one that a double dot takes
back.  No name beyond the limits of the system is looked at.

Main results:

- `FileTree.find_of_componentLimit_lt`: the system refuses a name that is too long.
-/

namespace Lox

/-- A name in a file tree, by its components from the root, and what it names: a file with its bytes
or a directory. -/
structure FileEntry where
  parts : List String
  contents : Option (List UInt8)

/-- The files and directories of a machine, and the directory that is the current one. -/
structure FileTree where
  entries : List FileEntry
  current : List String

/-- Why a path gives no bytes: it names no file, or the system refuses the name. -/
inductive Obstacle where
  | absent
  | nameTooLong
  deriving DecidableEq

namespace FileTree

/-- The bytes that one component may have. -/
def componentLimit : Nat := 255

/-- The bytes that a whole path must stay below. -/
def pathLimit : Nat := 4096

/-- Some components lead to a directory: they are the name of one or the beginning of a longer name.
The current directory is there even if nothing is in it. -/
def isDirectory (tree : FileTree) (parts : List String) : Bool :=
  parts.isPrefixOf tree.current || tree.entries.any fun entry =>
    if entry.parts == parts then entry.contents.isNone else parts.isPrefixOf entry.parts

/-- One component onward from a place, which must be a directory.  Above the root is the root. -/
def step (tree : FileTree) (place : List String) (part : String) :
    Except Obstacle (List String) :=
  if !tree.isDirectory place then .error .absent
  else if part = ".." then .ok place.dropLast
  else if componentLimit < part.utf8ByteSize then .error .nameTooLong
  else .ok (place ++ [part])

/-- Where the walk along a path starts: at the root or in the current directory. -/
def startOf (tree : FileTree) (path : Path) : List String :=
  if path.root = 0 then tree.current else []

/-- The place that a path leads to. -/
def walk (tree : FileTree) (path : Path) : Except Obstacle (List String) :=
  path.parts.foldlM tree.step (tree.startOf path)

/-- The bytes of the file at a place. -/
def bytesAt (tree : FileTree) (place : List String) : Except Obstacle (List UInt8) :=
  match (tree.entries.find? (·.parts == place)).bind FileEntry.contents with
  | some bytes => .ok bytes
  | none => .error .absent

/-- The bytes of the file that a path names.  No name holds a null character. -/
def find (tree : FileTree) (path : Path) : Except Obstacle (List UInt8) :=
  let name := path.toString
  if name.toList.contains '\x00' then .error .absent
  else if pathLimit ≤ name.utf8ByteSize then .error .nameTooLong
  else
    match tree.walk path with
    | .error obstacle => .error obstacle
    | .ok place => tree.bytesAt place

/-- The system refuses a name that is too long. -/
theorem find_of_componentLimit_lt (tree : FileTree) {name : String}
    (hnull : '\x00' ∉ name.toList) (hlong : componentLimit < name.utf8ByteSize) :
    tree.find ⟨0, [name]⟩ = .error .nameTooLong := by
  have shown : Path.toString ⟨0, [name]⟩ = name := by simp [Path.toString]
  have named : name ≠ ".." := by
    rintro rfl
    exact absurd hlong (by decide +kernel)
  have here : tree.isDirectory tree.current = true := by simp [isDirectory]
  simp [find, shown, hnull, walk, startOf, step, here, named, hlong, bind, Except.bind]

end FileTree

end Lox
