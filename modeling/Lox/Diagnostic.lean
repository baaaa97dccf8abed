import Lox.Text.Lines

/-!
# Diagnostics

A diagnostic is a message about a line.  The scanner has two messages.  A diagnostic is shown either
on one line of its own or as a block that quotes the line it is about:

```text
error: Unexpected character.
  --> script.lox:2
  |
2 | var a = ?;
  |
```
-/

namespace Lox

/-- Why the scanner reports a place of a text. -/
inductive LexicalError where
  | unexpectedCharacter
  | unterminatedString
  deriving DecidableEq

namespace LexicalError

/-- Every cause of a report. -/
def all : List LexicalError :=
  [unexpectedCharacter, unterminatedString]

/-- The name of the cause. -/
def name : LexicalError → String
  | unexpectedCharacter => "UNEXPECTED_CHARACTER"
  | unterminatedString => "UNTERMINATED_STRING"

/-- The message of the report. -/
def message : LexicalError → String
  | unexpectedCharacter => "Unexpected character."
  | unterminatedString => "Unterminated string."

/-- The cause with the given name. -/
def ofName? (name : String) : Option LexicalError :=
  all.find? (·.name == name)

end LexicalError

/-- A message about a line. -/
structure Diagnostic where
  line : Int
  message : String
  deriving DecidableEq

namespace Diagnostic

/-- The diagnostic for a lexical error on a line. -/
def ofError (line : Int) (error : LexicalError) : Diagnostic :=
  ⟨line, error.message⟩

/-- The diagnostic on one line. -/
def format (d : Diagnostic) : String :=
  "[line " ++ toString d.line ++ "] Error: " ++ d.message

/-- The name shown for a text that has none. -/
def unnamed : String := "<script>"

/-- The diagnostic as a block with the line of the source it is about.  All bars and the arrow stand
in the column behind the line number and one blank. -/
def formatContext (d : Diagnostic) (source filename : String) : String :=
  let number := toString d.line
  let gutter := String.ofList (List.replicate (number.length + 1) ' ')
  "error: " ++ d.message ++ "\n" ++
    gutter ++ "--> " ++ filename ++ ":" ++ number ++ "\n" ++
    gutter ++ "|\n" ++
    number ++ " | " ++ lineText source d.line ++ "\n" ++
    gutter ++ "|"

end Diagnostic

end Lox
