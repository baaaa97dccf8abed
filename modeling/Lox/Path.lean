import Lox.Text.Split

/-!
# Paths

A path is a sequence of components behind nothing, one slash or two slashes.  Empty components and
single dots say nothing and are left out; a double dot is kept, since what it leads to depends on
the files.

Main results:

- `Path.ofString_of_not_mem`: a name without slashes is a path of one component.
-/

namespace Lox

/-- A path: how many slashes it starts with, two at most, and its components. -/
structure Path where
  root : Nat
  parts : List String
  deriving DecidableEq

namespace Path

/-- A component that says something. -/
def isMeaningful (part : String) : Bool :=
  part != "" && part != "."

/-- How many of the slashes in front count.  Three and more are as good as one. -/
def rootOf (text : String) : Nat :=
  let slashes := (text.toList.takeWhile (· == '/')).length
  if slashes ≤ 2 then slashes else 1

/-- Reads a path. -/
def ofString (text : String) : Path :=
  ⟨rootOf text, ((pieces '/' text.toList).map String.ofList).filter isMeaningful⟩

/-- Writes a path. -/
def toString (path : Path) : String :=
  if path.root = 0 ∧ path.parts = [] then "."
  else String.ofList (List.replicate path.root '/') ++ String.intercalate "/" path.parts

/-- The path without its last component. -/
def parent (path : Path) : Path :=
  { path with parts := path.parts.dropLast }

/-- The path of an entry in the directory of a path. -/
def child (path : Path) (name : String) : Path :=
  { path with parts := path.parts ++ [name] }

/-- A name without slashes is a path of one component, if it says something. -/
theorem ofString_of_not_mem {name : String} (h : '/' ∉ name.toList)
    (meaningful : isMeaningful name = true) : ofString name = ⟨0, [name]⟩ := by
  have root : name.toList.takeWhile (· == '/') = [] := by
    cases hname : name.toList with
    | nil => rfl
    | cons c rest =>
        have hc : c ≠ '/' := by
          rintro rfl
          simp [hname] at h
        simp [hc]
  simp [ofString, rootOf, root, pieces_of_not_mem h, meaningful]

end Path

end Lox
