import Lox.Numeral

/-!
# Dates and times in TOML

A date is a day of the Gregorian calendar with a four digit year that is not zero.  A time of day
has seconds and may have a fraction, of which six digits count.  Both together may have an offset
from universal time.
-/

namespace Lox.Toml

/-- A date. -/
structure Date where
  year : Nat
  month : Nat
  day : Nat
  deriving DecidableEq

/-- A time of day. -/
structure Time where
  hour : Nat
  minute : Nat
  second : Nat
  microsecond : Nat
  deriving DecidableEq

/-! ## The calendar -/

/-- A year has a 29th of February. -/
def isLeapYear (year : Nat) : Bool :=
  year % 4 == 0 && (year % 100 != 0 || year % 400 == 0)

/-- How many days a month has. -/
def daysInMonth (year month : Nat) : Nat :=
  if month = 2 then if isLeapYear year then 29 else 28
  else if month = 4 ∨ month = 6 ∨ month = 9 ∨ month = 11 then 30
  else 31

/-- A date is in the calendar. -/
def Date.isValid (d : Date) : Bool :=
  1 ≤ d.year && 1 ≤ d.month && d.month ≤ 12 && 1 ≤ d.day && d.day ≤ daysInMonth d.year d.month

/-! ## Texts -/

/-- A number with the given number of digits. -/
private def field (width n : Nat) : String :=
  String.ofList (Numeral.padded 10 width n)

/-- A date as year, month and day. -/
def Date.format (d : Date) : String :=
  field 4 d.year ++ "-" ++ field 2 d.month ++ "-" ++ field 2 d.day

/-- A time of day, with its fraction only if that is not zero. -/
def Time.format (t : Time) : String :=
  field 2 t.hour ++ ":" ++ field 2 t.minute ++ ":" ++ field 2 t.second ++
    if t.microsecond = 0 then "" else "." ++ field 6 t.microsecond

/-- An offset of some minutes from universal time. -/
def formatOffset (minutes : Int) : String :=
  (if minutes < 0 then "-" else "+") ++ field 2 (minutes.natAbs / 60) ++ ":" ++
    field 2 (minutes.natAbs % 60)

/-- A date with a time of day, and with its offset if it has one. -/
def formatDateTime (d : Date) (t : Time) (offset : Option Int) : String :=
  d.format ++ "T" ++ t.format ++ (offset.map formatOffset).getD ""

/-! ## Reading -/

/-- Reads a number with exactly the given number of digits. -/
def fixedNumber? (width : Nat) (text : List Char) : Option (Nat × List Char) :=
  let digits := text.take width
  if digits.length = width ∧ digits.all Char.isDigit then
    some (Numeral.value 10 digits, text.drop width)
  else none

/-- Reads a number of two digits below a limit. -/
def pairBelow? (limit : Nat) (text : List Char) : Option (Nat × List Char) :=
  match fixedNumber? 2 text with
  | some (n, rest) => if n < limit then some (n, rest) else none
  | none => none

/-- Takes one expected character off a text. -/
def expect? (c : Char) : List Char → Option (List Char)
  | d :: rest => if d = c then some rest else none
  | [] => none

/-- Reads the shape of a date.  The day may be one that the month does not have. -/
def date? (text : List Char) : Option (Date × List Char) := do
  let (year, rest) ← fixedNumber? 4 text
  let rest ← expect? '-' rest
  let (month, rest) ← pairBelow? 13 rest
  let rest ← expect? '-' rest
  let (day, rest) ← pairBelow? 32 rest
  if month = 0 ∨ day = 0 then none else some (⟨year, month, day⟩, rest)

/-- Reads the fraction of a second, in microseconds. -/
def fraction (text : List Char) : Nat × List Char :=
  match text with
  | '.' :: rest =>
      let digits := rest.takeWhile Char.isDigit
      if digits.isEmpty then (0, text)
      else
        let counted := digits.take 6
        (Numeral.value 10 (counted ++ List.replicate (6 - counted.length) '0'),
          rest.dropWhile Char.isDigit)
  | _ => (0, text)

/-- Reads a time of day. -/
def time? (text : List Char) : Option (Time × List Char) := do
  let (hour, rest) ← pairBelow? 24 text
  let rest ← expect? ':' rest
  let (minute, rest) ← pairBelow? 60 rest
  let rest ← expect? ':' rest
  let (second, rest) ← pairBelow? 60 rest
  let (microsecond, rest) := fraction rest
  some (⟨hour, minute, second, microsecond⟩, rest)

/-- Reads the hours and minutes of an offset. -/
def offsetSize? (text : List Char) : Option (Nat × List Char) := do
  let (hours, rest) ← pairBelow? 24 text
  let rest ← expect? ':' rest
  let (minutes, rest) ← pairBelow? 60 rest
  some (hours * 60 + minutes, rest)

/-- Reads an offset behind a time of day, if there is one. -/
def offset (text : List Char) : Option Int × List Char :=
  match text with
  | [] => (none, [])
  | c :: rest =>
      if c = 'Z' ∨ c = 'z' then (some 0, rest)
      else if c = '+' ∨ c = '-' then
        match offsetSize? rest with
        | some (size, behind) => (some (if c = '-' then -(size : Int) else size), behind)
        | none => (none, text)
      else (none, text)

end Lox.Toml
