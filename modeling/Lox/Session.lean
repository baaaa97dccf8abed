import Lox.Collector
import Lox.Dump
import Lox.Scan
import Lox.Text.Blank

/-!
# Scanning and printing

A unit of source is scanned and its tokens are printed.  A session does this for one line after the
other, with a prompt in front of each: it goes on until the input ends, a blank line is read, or the
reader is interrupted.  Each line is a unit by itself, without the line end, and counts its lines
from one.

All reports on a unit are echoed before its first token is printed.

Main results:

- `session_of_blank`: a blank read ends a session and leaves the rest unread.
- `session_of_not_blank`: any other read is answered as a unit, and the session goes on.
-/

namespace Lox

/-- What scanning and printing leaves behind: everything written, and the diagnostics. -/
structure Outcome where
  transcript : Transcript
  diagnostics : List Diagnostic
  deriving DecidableEq

namespace Outcome

/-- A text on the output channel. -/
def output (text : String) : Outcome :=
  ⟨[⟨.output, text⟩], []⟩

/-- One outcome after another. -/
def append (first second : Outcome) : Outcome :=
  ⟨first.transcript ++ second.transcript, first.diagnostics ++ second.diagnostics⟩

instance : Append Outcome := ⟨append⟩

end Outcome

/-- Scans one unit of source, echoes the reports and prints the tokens. -/
def printScan (format : DumpFormat) (echo : Echo) (source : String) : Outcome :=
  let result := scan source
  ⟨echo.writes result.diagnostics ++ [⟨.output, dump format result.tokens⟩], result.diagnostics⟩

/-! ## Sessions -/

/-- How the input of a session stops when there is no further read. -/
inductive Ending where
  | endOfInput
  | interrupt
  deriving DecidableEq

/-- How a session scans and what it writes in front of each line. -/
structure SessionSettings where
  format : DumpFormat
  prompt : String
  echo : Echo

/-- The unit of source in a line as it was read: the line without the line end. -/
def unitOfLine (line : String) : String :=
  String.ofList (stripTrailing (fun c => c == '\r' || c == '\n') line.toList)

/-- The answer to one line: what scanning it leaves behind, or nothing if the line ends the
session. -/
def SessionSettings.answer? (settings : SessionSettings) (line : String) : Option Outcome :=
  if isBlank line then none
  else some (printScan settings.format settings.echo (unitOfLine line))

/-- What a session leaves behind, and how many reads it did not take. -/
structure Session where
  outcome : Outcome
  unread : Nat
  deriving DecidableEq

/-- A session over some reads.  An empty read is the end of the input, which is blank too. -/
def session (settings : SessionSettings) (ending : Ending) : List String → Session
  | [] =>
      match ending with
      | .endOfInput => ⟨.output settings.prompt, 0⟩
      | .interrupt => ⟨.output settings.prompt ++ .output "\n", 0⟩
  | line :: rest =>
      match settings.answer? line with
      | none => ⟨.output settings.prompt, rest.length⟩
      | some answer =>
          let later := session settings ending rest
          ⟨.output settings.prompt ++ answer ++ later.outcome, later.unread⟩

/-- A blank read ends a session and leaves the rest unread. -/
theorem session_of_blank (settings : SessionSettings) (ending : Ending) (line : String)
    (rest : List String) (h : isBlank line = true) :
    session settings ending (line :: rest) = ⟨.output settings.prompt, rest.length⟩ := by
  simp [session, SessionSettings.answer?, h]

/-- A read that is not blank is answered, and the session goes on. -/
theorem session_of_not_blank (settings : SessionSettings) (ending : Ending) (line : String)
    (rest : List String) (h : isBlank line = false) :
    session settings ending (line :: rest) =
      ⟨.output settings.prompt ++ printScan settings.format settings.echo (unitOfLine line) ++
        (session settings ending rest).outcome, (session settings ending rest).unread⟩ := by
  simp [session, SessionSettings.answer?, h]

end Lox
