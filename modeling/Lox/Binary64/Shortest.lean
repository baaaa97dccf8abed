import Lox.Binary64.Decimal

/-!
# Shortest decimal text

A finite value is written with the fewest significant digits that read back as the same value.  For
each number of digits there are two candidates, the two neighbours of the value on the decimal grid
with that many digits; a candidate counts if reading it gives the value again.  The first grid with
a candidate that counts is taken, of two candidates the nearer, of two equally near the even one.

The digits are laid out positionally for moderate decimal exponents and in exponent notation
otherwise.

Main definitions:

- `Binary64.shortest`: the digits and their exponent.
- `Binary64.text`: the written form, with the words for the values that have no digits as a
  parameter, since output formats differ in these words only.
-/

namespace Lox.Binary64

/-! ## Digits -/

/-- A decimal fraction `digits * 10 ^ exponent`. -/
structure Decimal where
  digits : Nat
  exponent : Int
  deriving DecidableEq

/-- The number of decimal digits of a natural number. -/
def digitCount (n : Nat) : Nat :=
  (Nat.toDigits 10 n).length

/-- The decimal exponent of the leading digit of a positive number of units. -/
def leadingExponent (count : Nat) : Int :=
  digitCount (count * Numeral.weight 10 340 / unitsOfOne) - 341

/-- A decimal reads back as the positive value with the given rank. -/
def readsBack (rank : Nat) (digits : Nat) (exponent : Int) : Bool :=
  match ofScientific false digits exponent with
  | .finite _ other => other.val == rank
  | _ => false

/-- The better of the two neighbours of a positive value on the grid of multiples of
`10 ^ exponent`, if one of them reads back as that value. -/
def candidate? (rank : Nat) (exponent : Int) : Option Decimal :=
  let num := units rank * Numeral.weight 10 (-exponent).toNat
  let den := unitsOfOne * Numeral.weight 10 exponent.toNat
  let below := num / den
  let remainder := num % den
  match readsBack rank below exponent, readsBack rank (below + 1) exponent with
  | true, true =>
      if 2 * remainder < den || (2 * remainder == den && below % 2 == 0) then some ⟨below, exponent⟩
      else some ⟨below + 1, exponent⟩
  | true, false => some ⟨below, exponent⟩
  | false, true => some ⟨below + 1, exponent⟩
  | false, false => none

/-- The shortest decimal that reads back as the positive value with the given rank.  Seventeen
digits always suffice. -/
def shortest (rank : Nat) : Decimal :=
  let leading := leadingExponent (units rank)
  ((List.range 17).findSome? fun (more : Nat) => candidate? rank (leading - more)).getD ⟨0, 0⟩

/-! ## Layout -/

/-- The digits of a decimal without trailing zeros. -/
def trimmedDigits (decimal : Decimal) : List Char :=
  ((Nat.toDigits 10 decimal.digits).reverse.dropWhile (· == '0')).reverse

/-- Digits without exponent: at least one digit on either side of the point. -/
def positional (digits : List Char) (leading : Int) : List Char :=
  if leading < 0 then
    ['0', '.'] ++ List.replicate (-leading - 1).toNat '0' ++ digits
  else
    let width := leading.toNat + 1
    let fraction := digits.drop width
    digits.take width ++ List.replicate (width - digits.length) '0' ++
      '.' :: (if fraction.isEmpty then ['0'] else fraction)

/-- Digits with an exponent of at least two digits and a sign.  The point is left out behind a
single digit. -/
def scientific (digits : List Char) (leading : Int) : List Char :=
  let point := if digits.length ≤ 1 then [] else '.' :: digits.drop 1
  let sign := if leading < 0 then '-' else '+'
  digits.take 1 ++ point ++ 'e' :: sign :: Numeral.padded 10 2 leading.natAbs

/-- The written form of a nonnegative finite value: positional from `10 ^ (-4)` up to `10 ^ 16`. -/
def magnitudeText (rank : Nat) : List Char :=
  if rank = 0 then ['0', '.', '0']
  else
    let decimal := shortest rank
    let digits := trimmedDigits decimal
    let leading := decimal.exponent + digitCount decimal.digits - 1
    if -4 ≤ leading ∧ leading < 16 then positional digits leading else scientific digits leading

/-- The words an output format has for the values without digits. -/
structure Words where
  nan : String
  infinity : String

/-- The written form of a number. -/
def text (words : Words) : Binary64 → String
  | .nan => words.nan
  | .infinite negative => (if negative then "-" else "") ++ words.infinity
  | .finite negative rank =>
      String.ofList ((if negative then ['-'] else []) ++ magnitudeText rank.val)

/-- The words of plain text. -/
def plainWords : Words := ⟨"nan", "inf"⟩

/-- The words of structured output. -/
def structuredWords : Words := ⟨"NaN", "Infinity"⟩

end Lox.Binary64
