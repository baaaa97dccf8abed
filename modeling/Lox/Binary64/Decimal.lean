import Lox.Binary64
import Lox.Numeral
import Lox.Text.Split

/-!
# Reading decimal numbers

A decimal numeral denotes an exact fraction, and the double precision number it stands for is the
one nearest to that fraction.  Exponents may be written as large as one likes: far beyond the range
of the format the value is decided without computing the power of ten.

Main results:

- `Binary64.ofScientific_of_nonneg`, `Binary64.ofScientific_of_neg`: inside the range the result is
  the rounded exact value.
- `Binary64.ofScientific_neg_natCast`: digits behind a point are the rounded quotient even outside
  the range, where the power of ten is not computed.
- `Binary64.ofText?_digits`, `Binary64.ofText?_point`: what a numeral without sign and exponent
  denotes.
-/

namespace Lox.Binary64

/-- The value nearest to `digits * 10 ^ exponent`.  A nonzero multiple of `10 ^ 310` is beyond the
greatest finite value, and a magnitude below `10 ^ (-330)` is less than half of the least positive
one. -/
def ofScientific (negative : Bool) (digits : Nat) (exponent : Int) : Binary64 :=
  if digits = 0 then zero negative
  else if 310 ≤ exponent then .infinite negative
  else if 0 ≤ exponent then ofRatio negative (digits * Numeral.weight 10 exponent.toNat) 1
  else if exponent + (digits.log2 + 1) ≤ -330 then zero negative
  else ofRatio negative digits (Numeral.weight 10 (-exponent).toNat)

/-- With a small nonnegative exponent the exact product is rounded. -/
theorem ofScientific_of_nonneg {negative : Bool} {digits : Nat} {exponent : Int}
    (hdigits : digits ≠ 0) (hlow : 0 ≤ exponent) (hhigh : exponent < 310) :
    ofScientific negative digits exponent =
      ofRatio negative (digits * Numeral.weight 10 exponent.toNat) 1 := by
  unfold ofScientific
  rw [if_neg hdigits, if_neg (by omega), if_pos hlow]

/-- With a negative exponent above the cut the exact quotient is rounded. -/
theorem ofScientific_of_neg {negative : Bool} {digits : Nat} {exponent : Int}
    (hdigits : digits ≠ 0) (hlow : -330 < exponent + (digits.log2 + 1)) (hhigh : exponent < 0) :
    ofScientific negative digits exponent =
      ofRatio negative digits (Numeral.weight 10 (-exponent).toNat) := by
  unfold ofScientific
  rw [if_neg hdigits, if_neg (by omega), if_neg (by omega), if_neg (by omega)]

/-- A quotient below half a unit is rounded to zero. -/
theorem ofRatio_eq_zero {num den : Nat} (negative : Bool) (h : 2 * (num * unitsOfOne) < den) :
    ofRatio negative num den = zero negative := by
  have none : num * unitsOfOne / den = 0 := Nat.div_eq_of_lt (by omega)
  have rest : num * unitsOfOne % den = num * unitsOfOne := Nat.mod_eq_of_lt (by omega)
  have rank : nearestRank num den = 0 := by
    simp [nearestRank, none, rest, roundHalfEven, h]
  simp [ofRatio, rank, zero]

/-- Digits that stand far enough behind the point are worth less than half a unit. -/
theorem units_lt_weight {digits places : Nat} (h : digits.log2 + 331 ≤ places) :
    2 * (digits * unitsOfOne) < Numeral.weight 10 places := by
  obtain ⟨more, rfl⟩ := Nat.exists_eq_add_of_le h
  have below : digits < Numeral.weight 10 (digits.log2 + 1) :=
    Nat.lt_of_lt_of_le Nat.lt_log2_self (Nat.pow_le_pow_left (by decide) _)
  have unit : 2 * unitsOfOne ≤ Numeral.weight 10 330 := by decide +kernel
  have places : digits.log2 + 331 + more = digits.log2 + 1 + (330 + more) := by omega
  rw [places, Numeral.weight_add, Numeral.weight_add 10 330]
  calc
    2 * (digits * unitsOfOne) = digits * (2 * unitsOfOne) := Nat.mul_left_comm 2 digits unitsOfOne
    _ ≤ digits * (Numeral.weight 10 330 * Numeral.weight 10 more) :=
      Nat.mul_le_mul_left _ (Nat.le_trans unit
        (Nat.le_mul_of_pos_right _ (Numeral.weight_pos (by decide) more)))
    _ < Numeral.weight 10 (digits.log2 + 1) * (Numeral.weight 10 330 * Numeral.weight 10 more) :=
      Nat.mul_lt_mul_of_pos_right below
        (Nat.mul_pos (Numeral.weight_pos (by decide) 330) (Numeral.weight_pos (by decide) more))

/-- Digits behind a point stand for the rounded quotient, however many there are. -/
theorem ofScientific_neg_natCast (negative : Bool) (digits places : Nat) :
    ofScientific negative digits (-(places : Int)) =
      ofRatio negative digits (Numeral.weight 10 places) := by
  by_cases hdigits : digits = 0
  · subst hdigits
    have small : 2 * (0 * unitsOfOne) < Numeral.weight 10 places := by
      simpa using Numeral.weight_pos (by decide) places
    rw [ofRatio_eq_zero negative small]
    simp [ofScientific]
  · by_cases hplaces : places = 0
    · subst hplaces
      rw [ofScientific_of_nonneg hdigits (by omega) (by omega)]
      simp
    · by_cases hcut : (-(places : Int)) + (digits.log2 + 1) ≤ -330
      · rw [ofRatio_eq_zero negative (units_lt_weight (by omega))]
        unfold ofScientific
        rw [if_neg hdigits, if_neg (by omega), if_neg (by omega), if_pos hcut]
      · rw [ofScientific_of_neg hdigits (by omega) (by omega)]
        have places : (-(-(places : Int))).toNat = places := by omega
        rw [places]

/-! ## Numeral texts -/

/-- Splits a leading sign off a text.  No sign and a plus sign both mean a nonnegative number. -/
def splitSign : List Char → Bool × List Char
  | '-' :: rest => (true, rest)
  | '+' :: rest => (false, rest)
  | rest => (false, rest)

/-- Reads a signed run of digits that takes up the whole text. -/
def integerOfText? (text : List Char) : Option Int :=
  let (negative, digits) := splitSign text
  if digits.isEmpty || !digits.all Char.isDigit then none
  else if negative then some (-(Numeral.value 10 digits : Int))
  else some (Numeral.value 10 digits)

/-- Reads the exponent at the end of a numeral.  No text is the exponent zero. -/
def exponentOfText? : List Char → Option Int
  | [] => some 0
  | c :: rest => if c.toLower = 'e' then integerOfText? rest else none

/-- Reads digits, a point and digits, an exponent.  Either digit string may be missing, not both. -/
def magnitudeOfText? (negative : Bool) (text : List Char) : Option Binary64 :=
  let whole := text.takeWhile Char.isDigit
  let afterWhole := text.dropWhile Char.isDigit
  let pointed := afterWhole.head? = some '.'
  let behind := if pointed then afterWhole.drop 1 else afterWhole
  let fraction := if pointed then behind.takeWhile Char.isDigit else []
  let tail := if pointed then behind.dropWhile Char.isDigit else behind
  if whole.isEmpty && fraction.isEmpty then none
  else (exponentOfText? tail).map fun exponent =>
    ofScientific negative (Numeral.value 10 (whole ++ fraction)) (exponent - fraction.length)

/-- Reads a number: an optional sign and a decimal numeral or one of the words for an infinity and
for the value that is no number. -/
def ofText? (text : List Char) : Option Binary64 :=
  let (negative, body) := splitSign text
  let word := String.ofList (body.map Char.toLower)
  if word = "inf" || word = "infinity" then some (.infinite negative)
  else if word = "nan" then some .nan
  else magnitudeOfText? negative body

/-! ## Plain numerals -/

/-- A digit has no capital form. -/
private theorem toLower_of_isDigit {c : Char} (h : c.isDigit = true) : c.toLower = c := by
  have bounds : 48 ≤ c.val ∧ c.val ≤ 57 := by simpa [Char.isDigit] using h
  unfold Char.toLower
  rw [dif_neg]
  intro upper
  have : (65 : UInt32) ≤ c.val := upper.1
  grind

/-- A text with a digit behind its sign is none of the words. -/
theorem ofText?_of_splitSign {text rest : List Char} {negative : Bool} {c : Char}
    (hsplit : splitSign text = (negative, c :: rest)) (h : c.isDigit = true) :
    ofText? text = magnitudeOfText? negative (c :: rest) := by
  have noWord : ∀ word : String, word.toList.head?.all Char.isAlpha = true → word ≠ "" →
      String.ofList ((c :: rest).map Char.toLower) ≠ word := by
    rintro word letter full rfl
    simp only [String.toList_ofList, List.map_cons, List.head?_cons, Option.all_some,
      toLower_of_isDigit h] at letter
    rw [Numeral.isDigit_eq_false_of_isAlpha letter] at h
    cases h
  unfold ofText?
  rw [hsplit]
  simp only [noWord "inf" (by decide) (by decide), noWord "infinity" (by decide) (by decide),
    noWord "nan" (by decide) (by decide), decide_false, Bool.or_self, Bool.false_eq_true, if_false]

/-- A text that starts with a digit has no sign and is none of the words. -/
theorem ofText?_of_isDigit {c : Char} (rest : List Char) (h : c.isDigit = true) :
    ofText? (c :: rest) = magnitudeOfText? false (c :: rest) := by
  refine ofText?_of_splitSign ?_ h
  unfold splitSign
  split
  · next same =>
    cases same
    exact absurd h (by decide)
  · next same =>
    cases same
    exact absurd h (by decide)
  · rfl

/-- Digits are taken off a text of digits to its end. -/
private theorem span_digits {digits : List Char} (h : ∀ c ∈ digits, c.isDigit = true) :
    digits.takeWhile Char.isDigit = digits ∧ digits.dropWhile Char.isDigit = [] := by
  have ended : ∀ c ∈ ([] : List Char).head?, c.isDigit = false := by simp
  simpa using span_eq h ended

/-- A run of digits is read as the whole number it denotes. -/
theorem ofText?_digits {whole : List Char} (hne : whole ≠ [])
    (hwhole : ∀ c ∈ whole, c.isDigit = true) :
    ofText? whole = some (ofRatio false (Numeral.value 10 whole) 1) := by
  obtain ⟨c, rest, rfl⟩ := List.exists_cons_of_ne_nil hne
  obtain ⟨taken, left⟩ := span_digits hwhole
  have exact := ofScientific_neg_natCast false (Numeral.value 10 (c :: rest)) 0
  rw [ofText?_of_isDigit rest (hwhole c List.mem_cons_self)]
  simpa [magnitudeOfText?, taken, left, exponentOfText?] using exact

/-- Two runs of digits with a point between them are read as the fraction they denote. -/
theorem ofText?_point {whole fraction : List Char} (hne : whole ≠ [])
    (hwhole : ∀ c ∈ whole, c.isDigit = true) (hfraction : ∀ c ∈ fraction, c.isDigit = true) :
    ofText? (whole ++ '.' :: fraction) =
      some (ofRatio false (Numeral.value 10 (whole ++ fraction))
        (Numeral.weight 10 fraction.length)) := by
  obtain ⟨c, rest, rfl⟩ := List.exists_cons_of_ne_nil hne
  have point : ∀ d ∈ ('.' :: fraction).head?, d.isDigit = false := by simp
  obtain ⟨taken, left⟩ := span_eq hwhole point
  obtain ⟨takenFraction, leftFraction⟩ := span_digits hfraction
  have exact := ofScientific_neg_natCast false (Numeral.value 10 (c :: rest ++ fraction))
    fraction.length
  rw [List.cons_append] at taken left exact ⊢
  rw [ofText?_of_isDigit _ (hwhole c List.mem_cons_self)]
  simpa [magnitudeOfText?, taken, left, takenFraction, leftFraction, exponentOfText?] using exact

end Lox.Binary64
