import Lox.Numeral

/-!
# Strings of TOML

A basic string stands in double quotes and has escapes; a literal string stands in single quotes and
has none.  Both also come with three quotes on either side: then they may run over several lines, a
newline directly behind the opening quotes does not count, and up to two more quotes in front of the
closing ones belong to the text.  In a basic string over several lines a backslash at the end of a
line takes the white space up to the next visible character away.

Controls other than the tab are not allowed in a string, but for the newline in one of several
lines.

Main results:

- `Toml.basicBody_quote`: a quote that is not escaped closes a basic string.
- `Toml.basicBody_of_plain`: a character that needs no escape stands for itself.
-/

namespace Lox.Toml

/-- Space and tab. -/
def isBlank (c : Char) : Bool :=
  c == ' ' || c == '\t'

/-- A control that a line of text must not hold. -/
def isControl (c : Char) : Bool :=
  (c.toNat < 0x20 && c != '\t') || c.toNat == 0x7F

/-! ## Escapes -/

/-- The character of a short escape, by the letter behind the backslash. -/
def shortEscape? (letter : Char) : Option Char :=
  if letter = 'b' then some '\x08'
  else if letter = 't' then some '\t'
  else if letter = 'n' then some '\n'
  else if letter = 'f' then some '\x0c'
  else if letter = 'r' then some '\r'
  else if letter = '\x22' then some '\x22'
  else if letter = '\\' then some '\\'
  else none

/-- The character with a code point written in hexadecimal.  Surrogates and numbers beyond the last
code point are none. -/
def ofHex? (digits : List Char) : Option Char :=
  let code := Numeral.value 16 digits
  if digits.all Numeral.isHexDigit && code.isValidChar then some (Char.ofNat code) else none

/-! ## Basic strings -/

/-- The text of a basic string behind its opening quote, and what follows the closing quote. -/
def basicBody : List Char → Option (List Char × List Char)
  | [] => none
  | '\x22' :: rest => some ([], rest)
  | '\\' :: 'u' :: a :: b :: c :: d :: rest =>
      match ofHex? [a, b, c, d], basicBody rest with
      | some read, some (text, behind) => some (read :: text, behind)
      | _, _ => none
  | '\\' :: 'U' :: a :: b :: c :: d :: e :: f :: g :: h :: rest =>
      match ofHex? [a, b, c, d, e, f, g, h], basicBody rest with
      | some read, some (text, behind) => some (read :: text, behind)
      | _, _ => none
  | '\\' :: letter :: rest =>
      match shortEscape? letter, basicBody rest with
      | some read, some (text, behind) => some (read :: text, behind)
      | _, _ => none
  | c :: rest =>
      if isControl c || c = '\\' then none
      else match basicBody rest with
        | some (text, behind) => some (c :: text, behind)
        | none => none

/-- What a backslash at the end of a line has to take away: nothing, the rest of the line, or all
white space. -/
inductive Folding where
  | off
  | line
  | all
  deriving DecidableEq

/-- The text of a basic string of several lines behind its opening quotes, and what follows the
closing quotes. -/
def basicLines : Folding → List Char → Option (List Char × List Char)
  | _, [] => none
  | .line, c :: rest =>
      if isBlank c then basicLines .line rest
      else if c = '\n' then basicLines .all rest
      else none
  | folding, c :: rest =>
      if folding = .all ∧ (isBlank c ∨ c = '\n') then basicLines .all rest
      else match c, rest with
        | '\x22', '\x22' :: '\x22' :: behind => some ([], behind)
        | '\\', 'u' :: a :: b :: c :: d :: rest =>
            match ofHex? [a, b, c, d], basicLines .off rest with
            | some read, some (text, behind) => some (read :: text, behind)
            | _, _ => none
        | '\\', 'U' :: a :: b :: c :: d :: e :: f :: g :: h :: rest =>
            match ofHex? [a, b, c, d, e, f, g, h], basicLines .off rest with
            | some read, some (text, behind) => some (read :: text, behind)
            | _, _ => none
        | '\\', letter :: rest =>
            if letter = '\n' then basicLines .all rest
            else if isBlank letter then basicLines .line rest
            else match shortEscape? letter, basicLines .off rest with
              | some read, some (text, behind) => some (read :: text, behind)
              | _, _ => none
        | c, rest =>
            if (isControl c && c ≠ '\n') || c = '\\' then none
            else match basicLines .off rest with
              | some (text, behind) => some (c :: text, behind)
              | none => none

/-! ## Literal strings -/

/-- The text of a literal string behind its opening quote, and what follows the closing quote. -/
def literalBody : List Char → Option (List Char × List Char)
  | [] => none
  | c :: rest =>
      if c = '\x27' then some ([], rest)
      else if isControl c then none
      else match literalBody rest with
        | some (text, behind) => some (c :: text, behind)
        | none => none

/-- The text of a literal string of several lines behind its opening quotes, and what follows the
closing quotes. -/
def literalLines : List Char → Option (List Char × List Char)
  | [] => none
  | '\x27' :: '\x27' :: '\x27' :: rest => some ([], rest)
  | c :: rest =>
      if isControl c && c ≠ '\n' then none
      else match literalLines rest with
        | some (text, behind) => some (c :: text, behind)
        | none => none

/-! ## Strings of either kind -/

/-- Leaves out a newline at the beginning. -/
def dropNewline : List Char → List Char
  | '\n' :: rest => rest
  | text => text

/-- Moves up to two quotes that follow the closing ones into the text. -/
def takeQuotes (quote : Char) (text behind : List Char) : List Char × List Char :=
  let extra := (behind.take 2).takeWhile (· == quote)
  (text ++ extra, behind.drop extra.length)

/-- Reads a string on one line. -/
def lineString? : List Char → Option (List Char × List Char)
  | '\x22' :: rest => basicBody rest
  | '\x27' :: rest => literalBody rest
  | _ => none

/-- Reads a string of any kind. -/
def string? : List Char → Option (List Char × List Char)
  | '\x22' :: '\x22' :: '\x22' :: rest =>
      (basicLines .off (dropNewline rest)).map fun found => takeQuotes '\x22' found.1 found.2
  | '\x27' :: '\x27' :: '\x27' :: rest =>
      (literalLines (dropNewline rest)).map fun found => takeQuotes '\x27' found.1 found.2
  | text => lineString? text

/-- A quote that is not escaped closes a basic string. -/
theorem basicBody_quote (rest : List Char) : basicBody ('\x22' :: rest) = some ([], rest) := by
  simp [basicBody]

/-- A character that needs no escape stands for itself. -/
theorem basicBody_of_plain {c : Char} {rest text behind : List Char}
    (hcontrol : isControl c = false) (hquote : c ≠ '\x22') (hbackslash : c ≠ '\\')
    (h : basicBody rest = some (text, behind)) :
    basicBody (c :: rest) = some (c :: text, behind) := by
  simp [basicBody, hcontrol, hbackslash, h]

end Lox.Toml
