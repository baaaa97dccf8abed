/-!
# Numerals

Reading and writing digit strings in a base up to sixteen.  Digits past nine are the letters `a` to
`f`, read in either case and written small.

Main results:

- `Numeral.weight_succ`: a digit counts more with every place to its right.
- `Numeral.value_append`: the value of two digit strings one behind the other.
- `Numeral.value_zeros`: leading zeros do not count.
-/

namespace Lox.Numeral

/-- A hexadecimal digit. -/
def isHexDigit (c : Char) : Bool :=
  c.isDigit || ('a' ≤ c && c ≤ 'f') || ('A' ≤ c && c ≤ 'F')

/-- A letter is no decimal digit. -/
theorem isDigit_eq_false_of_isAlpha {c : Char} (h : c.isAlpha = true) : c.isDigit = false := by
  delta Char.isAlpha Char.isUpper Char.isLower at h
  delta Char.isDigit
  grind

/-- What one digit counts. -/
def digitValue (c : Char) : Nat :=
  if c.isDigit then c.toNat - '0'.toNat else c.toLower.toNat - 'a'.toNat + 10

/-- The number that a digit string denotes in a base, the most significant digit first. -/
def value (base : Nat) (digits : List Char) : Nat :=
  digits.foldl (fun total digit => base * total + digitValue digit) 0

/-- What a one at a place counts, where places are numbered from the right and from zero. -/
def weight (base place : Nat) : Nat :=
  Nat.pow base place

/-- At the last place a one counts one. -/
@[simp] theorem weight_zero (base : Nat) : weight base 0 = 1 := rfl

/-- One place further to the left a one counts as often again as the base says. -/
theorem weight_succ (base place : Nat) : weight base (place + 1) = weight base place * base := rfl

/-- Moving a digit by some places and then by others is moving it by both. -/
theorem weight_add (base front back : Nat) :
    weight base (front + back) = weight base front * weight base back :=
  Nat.pow_add base front back

/-- A digit counts something at every place. -/
theorem weight_pos {base : Nat} (h : 0 < base) (place : Nat) : 0 < weight base place :=
  Nat.pow_pos h

/-- The empty digit string denotes zero. -/
@[simp] theorem value_nil (base : Nat) : value base [] = 0 := rfl

private theorem foldl_value (base total : Nat) (digits : List Char) :
    digits.foldl (fun total digit => base * total + digitValue digit) total =
      total * weight base digits.length + value base digits := by
  induction digits generalizing total with
  | nil => simp
  | cons digit rest ih =>
      have shift := ih (base * 0 + digitValue digit)
      simp only [value, List.foldl_cons, List.length_cons] at shift ⊢
      rw [ih, shift, value, weight_succ, Nat.add_mul]
      simp only [Nat.mul_zero, Nat.zero_add, Nat.add_assoc]
      congr 1
      ac_rfl

/-- Digits behind a digit string shift it by their number. -/
theorem value_append (base : Nat) (front back : List Char) :
    value base (front ++ back) = value base front * weight base back.length + value base back := by
  rw [value, List.foldl_append, foldl_value]
  rfl

/-- Leading zeros do not count. -/
theorem value_zeros (base count : Nat) (digits : List Char) :
    value base (List.replicate count '0' ++ digits) = value base digits := by
  rw [value_append]
  suffices h : value base (List.replicate count '0') = 0 by simp [h]
  induction count with
  | zero => rfl
  | succ count ih =>
      rw [List.replicate_succ', value_append, ih]
      simp [value, digitValue]

/-- A number in a base, with zeros in front up to the given width. -/
def padded (base width n : Nat) : List Char :=
  let digits := Nat.toDigits base n
  List.replicate (width - digits.length) '0' ++ digits

end Lox.Numeral
