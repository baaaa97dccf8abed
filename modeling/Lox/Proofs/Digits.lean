import Lox.Numeral
import Mathlib.Data.List.Basic

/-!
# Digits of numbers

Written in a base up to sixteen and read in the same base, a number comes back.  The digits are the
fewest that will do: the first is no zero unless the number is, and there are no more than the
number needs.

Main results:

- Theorem `Numeral.value_toDigits`: the digits of a number denote it.
- Theorem `Numeral.head?_toDigits_ne`: a positive number has no leading zero.
- Theorems `Numeral.value_padded`, `Numeral.length_padded`: a padded number denotes the number and
  is just as wide as asked for if it fits.
-/

namespace Lox.Numeral

/-- A digit counts what it has been made for. -/
theorem digitValue_digitChar {n : Nat} (h : n < 16) : digitValue n.digitChar = n := by
  revert n
  decide

/-- Digits are hexadecimal digits at most. -/
theorem isHexDigit_digitChar {n : Nat} (h : n < 16) : isHexDigit n.digitChar = true := by
  revert n
  decide

section

variable (base : Nat)

/-- The digits of a number denote it. -/
theorem value_toDigits (hlow : 1 < base) (hhigh : base ≤ 16) (n : Nat) :
    value base (Nat.toDigits base n) = n := by
  induction n using Nat.strongRecOn with
  | ind n ih =>
      rw [Nat.toDigits_eq_if hlow]
      split
      · next single => simp [value, digitValue_digitChar (n := n) (by omega)]
      · next more =>
        have last : n % base < base := Nat.mod_lt n (by omega)
        have rest := ih (n / base) (Nat.div_lt_self (by omega) hlow)
        have one : value base [(n % base).digitChar] = n % base := by
          simp [value, digitValue_digitChar (n := n % base) (by omega)]
        rw [value_append, rest, one]
        simpa [weight] using Nat.div_add_mod' n base

/-- All digits of a number are digits. -/
theorem isHexDigit_of_mem_toDigits (hlow : 1 < base) (hhigh : base ≤ 16) {n : Nat} {c : Char}
    (h : c ∈ Nat.toDigits base n) : isHexDigit c = true := by
  induction n using Nat.strongRecOn with
  | ind n ih =>
      rw [Nat.toDigits_eq_if hlow] at h
      split at h
      · next single =>
        rw [List.mem_singleton.1 h]
        exact isHexDigit_digitChar (by omega)
      · next more =>
        have last : n % base < base := Nat.mod_lt n (by omega)
        rcases List.mem_append.1 h with h | h
        · exact ih (n / base) (Nat.div_lt_self (by omega) hlow) h
        · rw [List.mem_singleton.1 h]
          exact isHexDigit_digitChar (by omega)

/-- A positive number has no leading zero. -/
theorem head?_toDigits_ne (hlow : 1 < base) {n : Nat} (h : 0 < n) :
    (Nat.toDigits base n).head? ≠ some '0' := by
  induction n using Nat.strongRecOn with
  | ind n ih =>
      rw [Nat.toDigits_eq_if hlow]
      split
      · simpa using Nat.pos_iff_ne_zero.1 h
      · next more =>
        have rest := ih (n / base) (Nat.div_lt_self h hlow)
          (Nat.div_pos (by omega) (by omega))
        rwa [List.head?_append_of_ne_nil _ Nat.toDigits_ne_nil]

/-- A positive number has no more digits than it needs. -/
theorem weight_le_of_length_toDigits (hlow : 1 < base) {n : Nat} (h : 0 < n) :
    weight base ((Nat.toDigits base n).length - 1) ≤ n := by
  rcases Nat.eq_zero_or_pos ((Nat.toDigits base n).length - 1) with hone | hmore
  · rw [hone]
    exact h
  · by_contra hlt
    have := (Nat.length_toDigits_le_iff hlow hmore).2 (Nat.lt_of_not_le hlt)
    omega

/-- A padded number denotes the number. -/
theorem value_padded (hlow : 1 < base) (hhigh : base ≤ 16) (width n : Nat) :
    value base (padded base width n) = n := by
  rw [padded, value_zeros, value_toDigits base hlow hhigh]

/-- A padded number has a digit. -/
theorem padded_ne_nil (width n : Nat) : padded base width n ≠ [] :=
  List.append_ne_nil_of_right_ne_nil _ Nat.toDigits_ne_nil

/-- A padded number is just as wide as asked for if it fits. -/
theorem length_padded (hlow : 1 < base) {width n : Nat} (hwidth : 0 < width)
    (h : n < weight base width) : (padded base width n).length = width := by
  have fits := (Nat.length_toDigits_le_iff hlow hwidth).2 h
  simp only [padded, List.length_append, List.length_replicate]
  omega

/-- All digits of a padded number are digits. -/
theorem isHexDigit_of_mem_padded (hlow : 1 < base) (hhigh : base ≤ 16) {width n : Nat} {c : Char}
    (h : c ∈ padded base width n) : isHexDigit c = true := by
  rcases List.mem_append.1 h with h | h
  · rw [List.eq_of_mem_replicate h]
    rfl
  · exact isHexDigit_of_mem_toDigits base hlow hhigh h

end

/-- Zeros at the end count nothing of their own. -/
theorem value_append_zeros (digits : List Char) (zeros : Nat) :
    value 10 (digits ++ List.replicate zeros '0') = value 10 digits * weight 10 zeros := by
  have none : value 10 (List.replicate zeros '0') = 0 := by
    simpa using value_zeros 10 zeros []
  rw [value_append, List.length_replicate, none, Nat.add_zero]

/-- All digits of a padded decimal number are decimal digits. -/
theorem isDigit_of_mem_padded {width n : Nat} {c : Char} (h : c ∈ padded 10 width n) :
    c.isDigit = true := by
  rcases List.mem_append.1 h with h | h
  · rw [List.eq_of_mem_replicate h]
    rfl
  · exact Nat.isDigit_of_mem_toDigits (by decide) (by decide) h

end Lox.Numeral
