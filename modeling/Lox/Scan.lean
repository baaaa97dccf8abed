import Lox.Segment

/-!
# Scanning a text

A scan takes the segments of a text in order and keeps count of the line.  Each lexeme becomes a
token on the line it starts on, each fault a report, and a token for the end of the text closes the
list.  Faults never stop a scan.

Main results:

- `tokensFrom_ne_nil`: a scan always has a closing token.
- `tokensFrom_append`, `reportsFrom_append`: a scan can be taken up between any two segments with
  nothing but the line.
-/

namespace Lox

/-- What scanning a text gives. -/
structure Scan where
  tokens : List Token
  diagnostics : List Diagnostic
  deriving DecidableEq

/-- The line behind some segments that start on the given line. -/
def lineBehind (line : Nat) (parts : List Segment) : Nat :=
  parts.foldl (fun line part => line + part.lineBreaks) line

/-- The tokens of segments that start on the given line, and the closing token. -/
def tokensFrom (line : Nat) : List Segment → List Token
  | [] => [.eof line]
  | part :: rest => (part.token? line).toList ++ tokensFrom (line + part.lineBreaks) rest

/-- The reports on segments that start on the given line. -/
def reportsFrom (line : Nat) : List Segment → List Diagnostic
  | [] => []
  | part :: rest => (part.report? line).toList ++ reportsFrom (line + part.lineBreaks) rest

/-- Scans a text from its first line on. -/
def scan (source : String) : Scan :=
  let parts := segments source.toList
  ⟨tokensFrom 1 parts, reportsFrom 1 parts⟩

/-- A text has an error if its scan reports anything. -/
def Scan.hadError (result : Scan) : Bool :=
  !result.diagnostics.isEmpty

/-- A scan always has a closing token. -/
theorem tokensFrom_ne_nil (line : Nat) (parts : List Segment) : tokensFrom line parts ≠ [] := by
  induction parts generalizing line with
  | nil => simp [tokensFrom]
  | cons part rest ih => simp [tokensFrom, ih]

/-- The tokens of segments in two parts: those of the front without the closing token, then those of
the back. -/
theorem tokensFrom_append (line : Nat) (front back : List Segment) :
    tokensFrom line (front ++ back) =
      (tokensFrom line front).dropLast ++ tokensFrom (lineBehind line front) back := by
  induction front generalizing line with
  | nil => simp [tokensFrom, lineBehind]
  | cons part rest ih =>
      simp [tokensFrom, lineBehind, ih, List.dropLast_append_of_ne_nil, tokensFrom_ne_nil]

/-- The reports on segments in two parts. -/
theorem reportsFrom_append (line : Nat) (front back : List Segment) :
    reportsFrom line (front ++ back) =
      reportsFrom line front ++ reportsFrom (lineBehind line front) back := by
  induction front generalizing line with
  | nil => simp [reportsFrom, lineBehind]
  | cons part rest ih => simp [reportsFrom, lineBehind, ih]

end Lox
