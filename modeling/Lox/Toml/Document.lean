import Lox.Text.Utf8
import Lox.Toml.Reader

/-!
# Documents of TOML

The statements of a document build one table.  A statement may add to what is there as long as
nothing is defined twice: a table has one header at most, a table made by a key with points belongs
to the part of the document that made it, and a value written in brackets or braces is complete.  A
further header of an array of tables starts a new table, for which headers may be used again.
-/

namespace Lox.Toml

/-- A document being built: its table, the table that assignments belong to, the tables that have a
header or count as if they had, those that will count so from the next header on, and the values
that are complete. -/
structure Document where
  table : Table
  header : Key
  declared : List Key
  pending : List Key
  frozen : List Key

namespace Document

/-- A document without statements. -/
def empty : Document :=
  ⟨[], [], [], [], []⟩

/-- A key leads to or into a complete value. -/
def isFrozen (document : Document) (key : Key) : Bool :=
  document.frozen.any (·.isPrefixOf key)

/-- The tables made by keys with points count as declared. -/
def settle (document : Document) : Document :=
  { document with declared := document.pending ++ document.declared, pending := [] }

/-- The header of a table. -/
def openTable? (document : Document) (key : Key) : Option Document :=
  let settled := document.settle
  if settled.declared.contains key || settled.isFrozen key then none
  else (settled.table.update? true some key).map fun table =>
    { settled with table := table, header := key, declared := key :: settled.declared }

/-- The header of a table in an array of tables. -/
def openArray? (document : Document) (key : Key) : Option Document :=
  let settled := document.settle
  if settled.isFrozen key then none
  else (settled.table.update? true (·.appendTable? (key.getLastD "")) key.dropLast).map fun table =>
    { settled with
      table := table
      header := key
      declared := key :: settled.declared.filter (!key.isPrefixOf ·)
      frozen := settled.frozen.filter (!key.isPrefixOf ·) }

/-- The tables on the way along a key with points. -/
def onTheWay (header key : Key) : List Key :=
  (List.range (key.length - 1)).map fun i => header ++ key.take (i + 1)

/-- An assignment. -/
def assign? (document : Document) (key : Key) (value : Value) : Option Document :=
  let tables := onTheWay document.header key
  let place := document.header ++ key
  if tables.any document.declared.contains || document.isFrozen place.dropLast then none
  else
    let grown := document.table.update? true (·.insert? (key.getLastD "") value) place.dropLast
    grown.map fun table =>
      { document with
        table := table
        pending := tables ++ document.pending
        frozen := if value.isContainer then place :: document.frozen else document.frozen }

/-- A statement. -/
def carryOut? (document : Document) : Statement → Option Document
  | .assign key value => document.assign? key value
  | .openTable key => document.openTable? key
  | .openArray key => document.openArray? key

end Document

/-- The table that a text denotes, if it is a document. -/
def Table.ofText? (text : String) : Option Table := do
  let statements ← statements? (joinLineEnds text.toList)
  let document ← statements.foldlM Document.carryOut? Document.empty
  some document.table

end Lox.Toml
