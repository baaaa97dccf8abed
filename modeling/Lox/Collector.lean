import Lox.Diagnostic
import Lox.Transcript

/-!
# Collecting diagnostics

A collector keeps every diagnostic it is handed and may echo each one as it arrives: in one line, or
as a block that quotes a given source.  The source it quotes need not be the text being scanned.

Main results:

- `Collector.diagnostics_collect`: collecting only appends.
- `Collector.hadError_eq_false_iff`: a collector without error has collected nothing.
-/

namespace Lox

/-- How a collector echoes a diagnostic. -/
inductive Echo where
  | silent
  | plain
  | quoting (source filename : String)
  deriving DecidableEq

namespace Echo

/-- What is echoed for a diagnostic, if anything: its text and a newline. -/
def text? : Echo → Diagnostic → Option String
  | silent, _ => none
  | plain, d => some (d.format ++ "\n")
  | quoting source filename, d => some (d.formatContext source filename ++ "\n")

/-- The echoes of some diagnostics on the error channel, one write each. -/
def writes (echo : Echo) (diagnostics : List Diagnostic) : Transcript :=
  diagnostics.filterMap fun d => (echo.text? d).map (Write.mk .errors)

end Echo

/-- The diagnostics collected so far, and how new ones are echoed. -/
structure Collector where
  echo : Echo
  diagnostics : List Diagnostic

namespace Collector

/-- A collector that has collected nothing. -/
def ofEcho (echo : Echo) : Collector :=
  ⟨echo, []⟩

/-- Hands some diagnostics to a collector; gives the collector and what it echoes. -/
def collect (c : Collector) (diagnostics : List Diagnostic) : Collector × Transcript :=
  ({ c with diagnostics := c.diagnostics ++ diagnostics }, c.echo.writes diagnostics)

/-- Some diagnostic has been collected. -/
def hadError (c : Collector) : Bool :=
  !c.diagnostics.isEmpty

/-- Collecting only appends. -/
theorem diagnostics_collect (c : Collector) (diagnostics : List Diagnostic) :
    (c.collect diagnostics).1.diagnostics = c.diagnostics ++ diagnostics := rfl

/-- A collector without error has collected nothing. -/
theorem hadError_eq_false_iff (c : Collector) : c.hadError = false ↔ c.diagnostics = [] := by
  simp [hadError]

end Collector

end Lox
