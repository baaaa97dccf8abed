import Lox.Binary64
import Lox.Toml.Time

/-!
# Values of TOML

A table keeps its entries in the order in which they were made, with different names.
-/

namespace Lox.Toml

/-- A value in a document. -/
inductive Value where
  | string (text : String)
  | integer (value : Int)
  | float (value : Binary64)
  | boolean (value : Bool)
  | date (date : Date)
  | time (time : Time)
  | dateTime (date : Date) (time : Time) (offset : Option Int)
  | array (items : List Value)
  | table (entries : List (String × Value))

/-- The entries of a table. -/
abbrev Table := List (String × Value)

/-- The names that lead to an entry from table to table. -/
abbrev Key := List String

namespace Value

/-- A value that holds other values. -/
def isContainer : Value → Bool
  | array _ => true
  | table _ => true
  | _ => false

/-- The text of a string. -/
def string? : Value → Option String
  | string text => some text
  | _ => none

/-- The entries of a table. -/
def table? : Value → Option Table
  | table entries => some entries
  | _ => none

end Value

namespace Table

/-- Makes a new entry. -/
def insert? (table : Table) (name : String) (value : Value) : Option Table :=
  if (table.lookup name).isSome then none else some (table ++ [(name, value)])

/-- Puts another value in the place of the one that a name has. -/
def replace (table : Table) (name : String) (value : Value) : Table :=
  table.map fun entry => if entry.1 = name then (name, value) else entry

/-- Changes the table that a key leads to.  Tables on the way are made where they are missing.  An
array of tables may stand for its last table. -/
def update? (throughArrays : Bool) (change : Table → Option Table) : Key → Table → Option Table
  | [], table => change table
  | name :: key, table =>
      match table.lookup name with
      | none =>
          (update? throughArrays change key []).map fun inner => table ++ [(name, .table inner)]
      | some (.table inner) =>
          (update? throughArrays change key inner).map fun inner =>
            replace table name (.table inner)
      | some (.array items) =>
          match throughArrays, items.getLast? with
          | true, some (.table inner) =>
              (update? throughArrays change key inner).map fun inner =>
                replace table name (.array (items.dropLast ++ [.table inner]))
          | _, _ => none
      | some _ => none

/-- Appends an empty table to the array of tables with the given name, which is made if there is no
such entry. -/
def appendTable? (name : String) (table : Table) : Option Table :=
  match table.lookup name with
  | none => some (table ++ [(name, .array [.table []])])
  | some (.array items) => some (replace table name (.array (items ++ [.table []])))
  | some _ => none

end Table

end Lox.Toml
