import Lox.Binary64.Decimal
import Lox.Toml.Quoted
import Lox.Toml.Value

/-!
# Numbers of TOML

Whole numbers are written in decimal with an optional sign or, without one, in hexadecimal, octal or
binary behind a mark for the base.  A decimal numeral with a fraction or an exponent is a floating
point number.  Single underscores may stand between digits, and a decimal numeral of more than one
digit does not start with a zero.
-/

namespace Lox.Toml

/-- A run of digits with single underscores between them, and what follows.  The digits come without
the underscores; a run has to be started at a digit. -/
def digitRun (isDigit : Char → Bool) : List Char → List Char × List Char
  | [] => ([], [])
  | c :: rest =>
      if isDigit c then
        let (digits, behind) := digitRun isDigit rest
        (c :: digits, behind)
      else if c = '_' ∧ (rest.head?.any isDigit) then digitRun isDigit rest
      else ([], c :: rest)

/-- A run of at least one digit. -/
def digits? (isDigit : Char → Bool) (text : List Char) : Option (List Char × List Char) :=
  if text.head?.any isDigit then some (digitRun isDigit text) else none

/-- Reads a whole number behind the mark for its base. -/
def based? (base : Nat) (isDigit : Char → Bool) (text : List Char) : Option (Value × List Char) :=
  (digits? isDigit text).map fun found =>
    (.integer (Numeral.value base found.1), found.2)

/-- Reads a whole number with a mark for its base. -/
def marked? : List Char → Option (Value × List Char)
  | '0' :: 'x' :: rest => based? 16 Numeral.isHexDigit rest
  | '0' :: 'o' :: rest => based? 8 (fun c => '0' ≤ c && c ≤ '7') rest
  | '0' :: 'b' :: rest => based? 2 (fun c => c == '0' || c == '1') rest
  | _ => none

/-- Reads the digits of a decimal numeral in front of the point: a single zero, or a run that starts
with another digit. -/
def whole? : List Char → Option (List Char × List Char)
  | '0' :: rest => some (['0'], rest)
  | text => digits? Char.isDigit text

/-- Reads the fraction of a numeral, if there is one. -/
def fraction? : List Char → Option (List Char × List Char)
  | '.' :: rest => digits? Char.isDigit rest
  | _ => none

/-- Reads the exponent of a numeral, if there is one. -/
def exponent? : List Char → Option (Int × List Char)
  | c :: rest =>
      if c = 'e' ∨ c = 'E' then
        let (negative, body) := Binary64.splitSign rest
        (digits? Char.isDigit body).map fun found =>
          let size : Int := Numeral.value 10 found.1
          (if negative then -size else size, found.2)
      else none
  | [] => none

/-- Reads a decimal numeral. -/
def decimal? (text : List Char) : Option (Value × List Char) := do
  let (negative, body) := Binary64.splitSign text
  let (whole, rest) ← whole? body
  match fraction? rest, exponent? rest with
  | some (places, rest), _ =>
      let digits := Numeral.value 10 (whole ++ places)
      let (exponent, rest) := (exponent? rest).getD (0, rest)
      some (.float (.ofScientific negative digits (exponent - places.length)), rest)
  | none, some (exponent, rest) =>
      some (.float (.ofScientific negative (Numeral.value 10 whole) exponent), rest)
  | none, none =>
      let size : Int := Numeral.value 10 whole
      some (.integer (if negative then -size else size), rest)

/-- Reads an infinity or the value that is no number, with an optional sign. -/
def special? (text : List Char) : Option (Value × List Char) :=
  match Binary64.splitSign text with
  | (negative, 'i' :: 'n' :: 'f' :: rest) => some (.float (.infinite negative), rest)
  | (_, 'n' :: 'a' :: 'n' :: rest) => some (.float .nan, rest)
  | _ => none

/-- Reads a number of any kind. -/
def number? (text : List Char) : Option (Value × List Char) :=
  marked? text <|> decimal? text <|> special? text

end Lox.Toml
