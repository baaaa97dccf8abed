import Lox.Binary64.Shortest
import Lox.Proofs.Digits
import Lox.Proofs.Rounding
import Lox.Text.Lines
import Mathlib.Algebra.Order.Field.Power

/-!
# Numbers and their texts

The written form of a number reads back as the number.  Seventeen significant digits are enough to
tell a value from all others: the grid of decimals with so many digits is finer than the row of
values, so one of the two neighbours of the value on it is rounded to the value.  Whatever grid is
taken, the digits read back, and neither layout changes what they denote.

Main results:

- Theorem `Binary64.readsBack_of_seventeen`: one neighbour on the grid with seventeen digits reads
  back.
- Theorem `Binary64.readsBack_shortest`: the digits of a value read back.
- Theorem `Binary64.ofText?_text`: a number is read back from its text.
-/

namespace Lox.Binary64

open Numeral (weight weight_zero weight_succ weight_add weight_pos value value_nil value_zeros
  value_append_zeros)

/-! ## Seventeen digits -/

/-- A power of ten is the quotient of two that count places. -/
theorem weight_div_weight (exponent : Int) :
    (weight 10 exponent.toNat : ℚ) / weight 10 (-exponent).toNat = 10 ^ exponent := by
  rw [cast_weight, cast_weight]
  rcases Int.le_total 0 exponent with h | h
  · obtain ⟨places, rfl⟩ := Int.eq_ofNat_of_zero_le h
    simp
  · obtain ⟨places, hplaces⟩ := Int.eq_ofNat_of_zero_le (Int.neg_nonneg_of_nonpos h)
    obtain rfl : exponent = -places := by omega
    simp

/-- A decimal, measured in units. -/
theorem inUnits_decimal (digits : Nat) (exponent : Int) :
    inUnits (digits * weight 10 exponent.toNat) (weight 10 (-exponent).toNat) =
      digits * 10 ^ exponent * unitsOfOne := by
  rw [inUnits, ← weight_div_weight]
  push_cast
  ring

/-- The leading digit of a value counts no more than the value. -/
theorem pow_leadingExponent_le {count : Nat} (h : 0 < count) :
    (10 : ℚ) ^ leadingExponent count * unitsOfOne ≤ count := by
  have unit : unitsOfOne ≤ weight 10 340 := by decide +kernel
  have positive : 0 < count * weight 10 340 / unitsOfOne :=
    Nat.div_pos (unit.trans (Nat.le_mul_of_pos_left _ h)) (by decide)
  have leading := Numeral.weight_le_of_length_toDigits 10 (by decide) positive
  rw [Nat.le_div_iff_mul_le (by decide)] at leading
  have digits := Nat.length_toDigits_pos (b := 10) (n := count * weight 10 340 / unitsOfOne)
  have exponent : leadingExponent count =
      ((digitCount (count * weight 10 340 / unitsOfOne) - 1 : Nat) : Int) - (340 : Nat) := by
    unfold leadingExponent digitCount
    omega
  rw [exponent, zpow_sub₀ (by norm_num), zpow_natCast, zpow_natCast, div_mul_eq_mul_div,
    div_le_iff₀ (by positivity)]
  rw [← Nat.cast_le (α := ℚ)] at leading
  push_cast [cast_weight] at leading
  exact leading

/-- A decimal reads back if it is closer to the value than half the way to any other. -/
theorem readsBack_of_dist_lt {rank digits : Nat} {exponent : Int} (hrank : rank < rankLimit)
    (h : ∀ other, other ≠ rank → 2 * |digits * 10 ^ exponent * unitsOfOne - (units rank : ℚ)| <
      |(units rank : ℚ) - units other|) :
    readsBack rank digits exponent = true := by
  have nearest : nearestRank (digits * weight 10 exponent.toNat) (weight 10 (-exponent).toNat) =
      rank :=
    nearestRank_eq_of_dist_lt (weight_pos (by decide) _) (by rwa [inUnits_decimal])
  rw [readsBack, ofScientific_eq_ofRatio, ofRatio_of_nearestRank false nearest hrank]
  exact beq_self_eq_true rank

/-- The neighbour of a value on a decimal grid that is no further away than half a step. -/
def neighbour (rank : Nat) (exponent : Int) : Nat :=
  roundHalfEven (units rank * weight 10 (-exponent).toNat)
    (unitsOfOne * weight 10 exponent.toNat)

/-- The nearer neighbour is no further away than half a step. -/
theorem abs_neighbour_sub_le (rank : Nat) (exponent : Int) :
    2 * |neighbour rank exponent * 10 ^ exponent * unitsOfOne - (units rank : ℚ)| ≤
      10 ^ exponent * unitsOfOne := by
  have hstep : (0 : ℚ) < 10 ^ exponent * unitsOfOne := mul_pos (by positivity) unitsOfOne_pos
  have half := abs_sub_roundHalfEven_le (units rank * weight 10 (-exponent).toNat)
    (Nat.mul_pos (by decide) (weight_pos (by decide) exponent.toNat) :
      0 < unitsOfOne * weight 10 exponent.toNat)
  have quotient : ((units rank * weight 10 (-exponent).toNat : Nat) : ℚ) /
      (unitsOfOne * weight 10 exponent.toNat : Nat) =
        units rank / (10 ^ exponent * unitsOfOne) := by
    have hup : (0 : ℚ) < weight 10 exponent.toNat := by
      exact_mod_cast weight_pos (by decide) exponent.toNat
    have hdown : (0 : ℚ) < weight 10 (-exponent).toNat := by
      exact_mod_cast weight_pos (by decide) (-exponent).toNat
    have hone := unitsOfOne_pos
    rw [← weight_div_weight]
    push_cast
    field_simp
  rw [quotient, ← neighbour] at half
  have scaled : (neighbour rank exponent * 10 ^ exponent * unitsOfOne : ℚ) - units rank =
      (neighbour rank exponent - units rank / (10 ^ exponent * unitsOfOne)) *
        (10 ^ exponent * unitsOfOne) := by
    rw [sub_mul, div_mul_cancel₀ _ hstep.ne']
    ring
  rw [abs_sub_comm] at half
  rw [scaled, abs_mul, abs_of_pos hstep, ← mul_assoc]
  exact mul_le_of_le_one_left hstep.le (by linarith)

/-- One neighbour on the grid with seventeen digits reads back. -/
theorem readsBack_of_seventeen {rank : Nat} (hpos : 0 < rank) (hrank : rank < rankLimit) :
    readsBack rank (neighbour rank (leadingExponent (units rank) - 16))
      (leadingExponent (units rank) - 16) = true := by
  have hunits : 0 < units rank := (Nat.zero_le _).trans_lt (units_strictMono hpos)
  have leading := pow_leadingExponent_le hunits
  have size : (0 : ℚ) < units rank := by exact_mod_cast hunits
  have step : (10 : ℚ) ^ (leadingExponent (units rank) - 16) * unitsOfOne * 10 ^ 16 ≤
      units rank := by
    rw [zpow_sub₀ (by norm_num)]
    calc
      _ = (10 : ℚ) ^ leadingExponent (units rank) * unitsOfOne := by
        norm_num
        ring
      _ ≤ units rank := leading
  refine readsBack_of_dist_lt hrank fun other hother => ?_
  -- a step is less than the way to any other value, since `2 ^ 53 < 10 ^ 16`
  have far := units_le_mul_dist hother
  have digits : (2 * binade : ℚ) < 10 ^ 16 := by norm_num [binade]
  have near := abs_neighbour_sub_le rank (leadingExponent (units rank) - 16)
  refine near.trans_lt ?_
  have apart : 0 < |(units rank : ℚ) - units other| := by
    by_contra hnone
    have : |(units rank : ℚ) - units other| = 0 := le_antisymm (not_lt.1 hnone) (abs_nonneg _)
    rw [this, mul_zero] at far
    linarith
  nlinarith

/-! ## The digits of a value -/

/-- What is taken from a grid reads back. -/
theorem readsBack_of_candidate? {rank : Nat} {exponent : Int} {decimal : Decimal}
    (h : candidate? rank exponent = some decimal) :
    readsBack rank decimal.digits decimal.exponent = true := by
  unfold candidate? at h
  dsimp only at h
  split at h
  · next below above =>
    split at h
    · cases h
      exact below
    · cases h
      exact above
  · next below _ =>
    cases h
    exact below
  · next _ above =>
    cases h
    exact above
  · cases h

/-- Something is taken from a grid where the nearer neighbour reads back. -/
theorem exists_candidate? {rank : Nat} {exponent : Int}
    (h : readsBack rank (neighbour rank exponent) exponent = true) :
    ∃ decimal, candidate? rank exponent = some decimal := by
  unfold candidate?
  dsimp only
  have around : neighbour rank exponent = _ ∨ neighbour rank exponent = _ := roundHalfEven_eq _ _
  split
  · split
    · exact ⟨_, rfl⟩
    · exact ⟨_, rfl⟩
  · exact ⟨_, rfl⟩
  · exact ⟨_, rfl⟩
  · next below above =>
    rcases around with hbelow | habove
    · rw [hbelow, below] at h
      cases h
    · rw [habove, above] at h
      cases h

/-- The digits of a value are taken from the first grid that has some. -/
theorem shortest_eq_of_findSome? {rank : Nat} {decimal : Decimal}
    (h : ((List.range 17).findSome? fun more : Nat =>
      candidate? rank (leadingExponent (units rank) - more)) = some decimal) :
    shortest rank = decimal := by
  unfold shortest
  dsimp only
  rw [h, Option.getD_some]

/-- The digits of a value are taken from some grid. -/
theorem exists_candidate?_eq_shortest {rank : Nat} (hpos : 0 < rank) (hrank : rank < rankLimit) :
    ∃ more : Nat, candidate? rank (leadingExponent (units rank) - more) = some (shortest rank) := by
  obtain ⟨seventeen, hseventeen⟩ := exists_candidate? (readsBack_of_seventeen hpos hrank)
  cases hfound : (List.range 17).findSome? fun more : Nat =>
      candidate? rank (leadingExponent (units rank) - more) with
  | none =>
      have missed := List.findSome?_eq_none_iff.1 hfound 16 (by decide)
      rw [show ((16 : Nat) : Int) = 16 from rfl, hseventeen] at missed
      cases missed
  | some decimal =>
      obtain ⟨more, -, hdecimal⟩ := List.exists_of_findSome?_eq_some hfound
      exact ⟨more, by rw [shortest_eq_of_findSome? hfound, hdecimal]⟩

/-- The digits of a value read back. -/
theorem readsBack_shortest {rank : Nat} (hpos : 0 < rank) (hrank : rank < rankLimit) :
    readsBack rank (shortest rank).digits (shortest rank).exponent = true := by
  obtain ⟨more, hmore⟩ := exists_candidate?_eq_shortest hpos hrank
  exact readsBack_of_candidate? hmore

/-- A decimal that reads back as a value has the rank of the value. -/
theorem nearestRank_of_readsBack {rank digits : Nat} {exponent : Int}
    (h : readsBack rank digits exponent = true) :
    nearestRank (digits * weight 10 exponent.toNat) (weight 10 (-exponent).toNat) = rank := by
  rw [readsBack, ofScientific_eq_ofRatio] at h
  split at h
  · next hfinite => exact (nearestRank_of_ofRatio hfinite).trans (eq_of_beq h)
  · cases h

/-- A decimal that reads back as a value is rounded to the value. -/
theorem ofScientific_of_readsBack {rank digits : Nat} {exponent : Int} (negative : Bool)
    (hrank : rank < rankLimit) (h : readsBack rank digits exponent = true) :
    ofScientific negative digits exponent = .finite negative ⟨rank, hrank⟩ := by
  rw [ofScientific_eq_ofRatio]
  exact ofRatio_of_nearestRank negative (nearestRank_of_readsBack h) hrank

/-- The digits that are written, with the zeros left out at their end. -/
theorem exists_trimmedDigits (decimal : Decimal) :
    ∃ zeros, Nat.toDigits 10 decimal.digits =
      trimmedDigits decimal ++ List.replicate zeros '0' := by
  obtain ⟨gap, hdigits, hgap⟩ :=
    exists_stripTrailing (· == '0') (Nat.toDigits 10 decimal.digits)
  have hzeros : gap = List.replicate gap.length '0' :=
    List.eq_replicate_iff.2 ⟨rfl, fun c hc => eq_of_beq (hgap c hc)⟩
  rw [hzeros] at hdigits
  exact ⟨gap.length, hdigits⟩

/-- What the layout of a value is given: its digits and the exponent of the first. -/
structure Laid (rank : Nat) (digits : List Char) (leading : Int) : Prop where
  isDigit : ∀ c ∈ digits, c.isDigit = true
  ne_nil : digits ≠ []
  head? : digits.head? ≠ some '0'
  ofScientific : ∀ negative (hrank : rank < rankLimit),
    ofScientific negative (value 10 digits) (leading + 1 - digits.length) =
      .finite negative ⟨rank, hrank⟩

/-- A positive value has a digit that counts. -/
theorem digits_shortest_pos {rank : Nat} (hpos : 0 < rank) (hrank : rank < rankLimit) :
    0 < (shortest rank).digits := by
  have reads := readsBack_shortest hpos hrank
  rcases Nat.eq_zero_or_pos (shortest rank).digits with hzero | hnonzero
  · have rounded := ofScientific_of_readsBack false hrank reads
    rw [hzero] at rounded
    simp only [Binary64.ofScientific, if_true, zero, finite.injEq, true_and] at rounded
    have := congrArg Fin.val rounded
    simp at this
    omega
  · exact hnonzero

/-- The decimal exponent of the first digit that is written for a positive value. -/
def writtenExponent (rank : Nat) : Int :=
  (shortest rank).exponent + digitCount (shortest rank).digits - 1

/-- The digits of a value and the exponent of the first denote the value. -/
theorem laid_shortest {rank : Nat} (hpos : 0 < rank) (hrank : rank < rankLimit) :
    Laid rank (trimmedDigits (shortest rank)) (writtenExponent rank) := by
  have reads := readsBack_shortest hpos hrank
  have nonzero := digits_shortest_pos hpos hrank
  rw [writtenExponent]
  generalize shortest rank = decimal at reads nonzero
  obtain ⟨zeros, hdigits⟩ := exists_trimmedDigits decimal
  have head := Numeral.head?_toDigits_ne 10 (by decide) nonzero
  have denotes := Numeral.value_toDigits 10 (by decide) (by decide) decimal.digits
  have count : digitCount decimal.digits = (trimmedDigits decimal).length + zeros := by
    rw [digitCount, hdigits, List.length_append, List.length_replicate]
  have hne : trimmedDigits decimal ≠ [] := by
    intro hnil
    rw [hdigits, value_append_zeros, hnil, value_nil, Nat.zero_mul] at denotes
    omega
  refine ⟨fun c hc => ?_, hne, ?_, fun negative _ => ?_⟩
  · refine Nat.isDigit_of_mem_toDigits (b := 10) (n := decimal.digits) (by decide) (by decide) ?_
    rw [hdigits]
    exact List.mem_append_left _ hc
  · rwa [hdigits, List.head?_append_of_ne_nil _ hne] at head
  · rw [hdigits, value_append_zeros] at denotes
    have exponent : decimal.exponent + digitCount decimal.digits - 1 + 1 -
        (trimmedDigits decimal).length = decimal.exponent + zeros := by
      rw [count]
      omega
    rw [← ofScientific_of_readsBack negative hrank reads, ← denotes, ofScientific_mul_weight,
      denotes, exponent]

/-! ## The parts of a numeral -/

/-- The parts of a numeral: the digits in front of the point, those behind it, and the exponent with
its letter and its sign.  The point is left out if there are no digits behind it. -/
structure Parts where
  whole : List Char
  fraction : List Char
  exponent : List Char

namespace Parts

/-- The parts one behind the other. -/
def text (parts : Parts) : List Char :=
  parts.whole ++ ((if parts.fraction = [] then [] else '.' :: parts.fraction) ++ parts.exponent)

/-- The parts make up a numeral with a fraction or an exponent, and without a needless zero in
front. -/
structure IsNumeral (parts : Parts) : Prop where
  whole_ne_nil : parts.whole ≠ []
  whole_isDigit : ∀ c ∈ parts.whole, c.isDigit = true
  whole_head? : parts.whole.head? = some '0' → parts.whole = ['0']
  fraction_isDigit : ∀ c ∈ parts.fraction, c.isDigit = true
  exponent : parts.exponent = [] ∨ ∃ sign digits, parts.exponent = 'e' :: sign :: digits ∧
    (sign = '+' ∨ sign = '-') ∧ digits ≠ [] ∧ ∀ c ∈ digits, c.isDigit = true
  real : parts.fraction ≠ [] ∨ parts.exponent ≠ []

/-- An exponent starts with no digit and no point. -/
theorem IsNumeral.head?_exponent {parts : Parts} (h : parts.IsNumeral) :
    ∀ c ∈ parts.exponent.head?, c.isDigit = false ∧ c ≠ '.' := by
  rcases h.exponent with hnone | ⟨sign, digits, hexponent, -⟩
  · simp [hnone]
  · simp [hexponent]

/-- What a numeral denotes is told by its parts. -/
theorem IsNumeral.magnitudeOfText? {parts : Parts} (h : parts.IsNumeral) (negative : Bool) :
    magnitudeOfText? negative parts.text =
      (exponentOfText? parts.exponent).map fun exponent =>
        ofScientific negative (value 10 (parts.whole ++ parts.fraction))
          (exponent - parts.fraction.length) := by
  have hhead := h.head?_exponent
  by_cases hpoint : parts.fraction = []
  · obtain ⟨taken, left⟩ := span_eq h.whole_isDigit fun c hc => (hhead c hc).1
    have unpointed : parts.exponent.head? ≠ some '.' := fun hc => (hhead _ hc).2 rfl
    simp [Binary64.magnitudeOfText?, text, hpoint, taken, left, unpointed, h.whole_ne_nil]
  · have point : ∀ c ∈ ('.' :: (parts.fraction ++ parts.exponent)).head?, c.isDigit = false := by
      simp
    obtain ⟨taken, left⟩ := span_eq h.whole_isDigit point
    obtain ⟨takenFraction, leftFraction⟩ :=
      span_eq h.fraction_isDigit fun c hc => (hhead c hc).1
    simp [Binary64.magnitudeOfText?, text, hpoint, taken, left, takenFraction, leftFraction]

/-- A numeral starts with a digit. -/
theorem IsNumeral.exists_cons {parts : Parts} (h : parts.IsNumeral) :
    ∃ c rest, parts.text = c :: rest ∧ c.isDigit = true := by
  obtain ⟨c, rest, hwhole⟩ := List.exists_cons_of_ne_nil h.whole_ne_nil
  refine ⟨c, _, by rw [text, hwhole, List.cons_append], ?_⟩
  exact h.whole_isDigit c (by simp [hwhole])

end Parts

/-! ## Layouts -/

/-- The parts of digits without exponent. -/
def positionalParts (digits : List Char) (leading : Int) : Parts :=
  if leading < 0 then ⟨['0'], List.replicate (-leading - 1).toNat '0' ++ digits, []⟩
  else
    let width := leading.toNat + 1
    ⟨digits.take width ++ List.replicate (width - digits.length) '0',
      if (digits.drop width).isEmpty then ['0'] else digits.drop width, []⟩

/-- The parts of digits with an exponent. -/
def scientificParts (digits : List Char) (leading : Int) : Parts :=
  ⟨digits.take 1, digits.drop 1,
    'e' :: (if leading < 0 then '-' else '+') :: Numeral.padded 10 2 leading.natAbs⟩

/-- Digits without exponent are laid out by their parts. -/
theorem text_positionalParts {digits : List Char} (h : digits ≠ []) (leading : Int) :
    (positionalParts digits leading).text = positional digits leading := by
  unfold positionalParts positional Parts.text
  split
  · simp [h]
  · dsimp only
    split <;> simp_all

/-- Digits with an exponent are laid out by their parts. -/
theorem text_scientificParts (digits : List Char) (leading : Int) :
    (scientificParts digits leading).text = scientific digits leading := by
  unfold scientificParts scientific Parts.text
  dsimp only
  by_cases h : digits.length ≤ 1
  · rw [if_pos (List.drop_eq_nil_of_le h), if_pos h]
    simp
  · rw [if_neg (by rwa [List.drop_eq_nil_iff]), if_neg h]
    simp

/-- An exponent with its sign is read. -/
theorem exponentOfText?_signed (leading : Int) :
    exponentOfText? ('e' :: (if leading < 0 then '-' else '+') ::
      Numeral.padded 10 2 leading.natAbs) = some leading := by
  have digits : ∀ c ∈ Numeral.padded 10 2 leading.natAbs, c.isDigit = true :=
    fun c hc => Numeral.isDigit_of_mem_padded hc
  have denotes := Numeral.value_padded 10 (by decide) (by decide) 2 leading.natAbs
  have nonempty := Numeral.padded_ne_nil 10 2 leading.natAbs
  have all : (Numeral.padded 10 2 leading.natAbs).all Char.isDigit = true :=
    List.all_eq_true.2 digits
  by_cases hneg : leading < 0
  · simp [exponentOfText?, integerOfText?, splitSign, hneg, nonempty, all, denotes,
      abs_of_neg hneg]
  · simp [exponentOfText?, integerOfText?, splitSign, hneg, nonempty, all, denotes,
      abs_of_nonneg (not_lt.1 hneg)]

section

variable {rank : Nat} {digits : List Char} {leading : Int}

/-- Digits without exponent make up a numeral. -/
theorem Laid.isNumeral_positionalParts (h : Laid rank digits leading) :
    (positionalParts digits leading).IsNumeral := by
  unfold positionalParts
  split
  · refine ⟨by simp, by simp, by simp, ?_, .inl rfl, .inl (by simp [h.ne_nil])⟩
    intro c hc
    rcases List.mem_append.1 hc with hc | hc
    · rw [List.eq_of_mem_replicate hc]
      rfl
    · exact h.isDigit c hc
  · have front : digits.take (leading.toNat + 1) ≠ [] := by simp [h.ne_nil]
    refine ⟨by simp [h.ne_nil], ?_, ?_, ?_, .inl rfl, .inl ?_⟩
    · intro c hc
      rcases List.mem_append.1 hc with hc | hc
      · exact h.isDigit c (List.mem_of_mem_take hc)
      · rw [List.eq_of_mem_replicate hc]
        rfl
    · intro hzero
      rw [List.head?_append_of_ne_nil _ front, List.head?_take] at hzero
      exact absurd (by simpa using hzero) h.head?
    · dsimp only
      split
      · simp
      · exact fun c hc => h.isDigit c (List.mem_of_mem_drop hc)
    · dsimp only
      split
      · simp
      · next hrest => simpa using hrest

/-- Digits with an exponent make up a numeral. -/
theorem Laid.isNumeral_scientificParts (h : Laid rank digits leading) :
    (scientificParts digits leading).IsNumeral where
  whole_ne_nil := by simp [scientificParts, h.ne_nil]
  whole_isDigit := fun c hc => h.isDigit c (List.mem_of_mem_take hc)
  whole_head? := by
    intro hzero
    rw [scientificParts, List.head?_take] at hzero
    exact absurd (by simpa using hzero) h.head?
  fraction_isDigit := fun c hc => h.isDigit c (List.mem_of_mem_drop hc)
  exponent := by
    refine .inr ⟨_, _, rfl, ?_, Numeral.padded_ne_nil 10 2 leading.natAbs,
      fun c hc => Numeral.isDigit_of_mem_padded hc⟩
    by_cases hneg : leading < 0 <;> simp [hneg]
  real := .inr (by simp [scientificParts])

/-- Digits without exponent denote the value. -/
theorem Laid.ofScientific_positionalParts (h : Laid rank digits leading) (negative : Bool)
    (hrank : rank < rankLimit) :
    Binary64.ofScientific negative
      (value 10 ((positionalParts digits leading).whole ++
        (positionalParts digits leading).fraction))
      (0 - (positionalParts digits leading).fraction.length) =
        .finite negative ⟨rank, hrank⟩ := by
  rw [← h.ofScientific negative hrank]
  unfold positionalParts
  split
  · next hneg =>
    have zeros : value 10 (['0'] ++ (List.replicate (-leading - 1).toNat '0' ++ digits)) =
        value 10 digits := by
      rw [← List.append_assoc, List.singleton_append, ← List.replicate_succ, value_zeros]
    dsimp only
    rw [zeros, List.length_append, List.length_replicate]
    congr 1
    omega
  · next hnonneg =>
    dsimp only
    by_cases hfits : digits.length ≤ leading.toNat + 1
    · have none : (digits.drop (leading.toNat + 1)).isEmpty = true := by simpa using hfits
      have zeros : digits.take (leading.toNat + 1) ++
          List.replicate (leading.toNat + 1 - digits.length) '0' ++ ['0'] =
            digits ++ List.replicate (leading.toNat + 1 - digits.length + 1) '0' := by
        rw [List.take_of_length_le hfits, List.append_assoc, ← List.replicate_succ']
      rw [if_pos none, zeros, value_append_zeros, ofScientific_mul_weight]
      congr 1
      simp only [List.length_singleton]
      omega
    · have some : ¬(digits.drop (leading.toNat + 1)).isEmpty = true := by simpa using hfits
      have enough : leading.toNat + 1 - digits.length = 0 := by omega
      rw [if_neg some, enough, List.replicate_zero, List.append_nil, List.take_append_drop,
        List.length_drop]
      congr 1
      omega

/-- Digits with an exponent denote the value. -/
theorem Laid.ofScientific_scientificParts (h : Laid rank digits leading) (negative : Bool)
    (hrank : rank < rankLimit) :
    Binary64.ofScientific negative
      (value 10 ((scientificParts digits leading).whole ++
        (scientificParts digits leading).fraction))
      (leading - (scientificParts digits leading).fraction.length) =
        .finite negative ⟨rank, hrank⟩ := by
  have positive : 0 < digits.length := List.length_pos_iff.2 h.ne_nil
  rw [← h.ofScientific negative hrank]
  unfold scientificParts
  dsimp only
  rw [List.take_append_drop, List.length_drop]
  congr 1
  omega

end

/-- A value is written without exponent: it is zero, or its first digit stands neither far behind
the point nor far in front of it. -/
def IsPositional (rank : Nat) : Prop :=
  rank = 0 ∨ (-4 ≤ writtenExponent rank ∧ writtenExponent rank < 16)

/-- The written form of a value is a numeral that denotes the value. -/
theorem exists_parts_magnitudeText {rank : Nat} (hrank : rank < rankLimit) :
    ∃ parts : Parts, parts.IsNumeral ∧ magnitudeText rank = parts.text ∧
      (parts.exponent = [] ↔ IsPositional rank) ∧
      ∀ negative, magnitudeOfText? negative parts.text =
        some (.finite negative ⟨rank, hrank⟩) := by
  by_cases hzero : rank = 0
  · subst hzero
    have numeral : (⟨['0'], ['0'], []⟩ : Parts).IsNumeral :=
      ⟨by simp, by simp, by simp, by simp, .inl rfl, .inl (by simp)⟩
    refine ⟨_, numeral, rfl, iff_of_true rfl (.inl rfl), fun negative => ?_⟩
    rw [numeral.magnitudeOfText? negative]
    rfl
  have laid := laid_shortest (Nat.pos_of_ne_zero hzero) hrank
  have unfolded : magnitudeText rank =
      if -4 ≤ writtenExponent rank ∧ writtenExponent rank < 16 then
        positional (trimmedDigits (shortest rank)) (writtenExponent rank)
      else scientific (trimmedDigits (shortest rank)) (writtenExponent rank) := by
    unfold magnitudeText
    rw [if_neg hzero]
    rfl
  rw [unfolded, IsPositional, or_iff_right hzero]
  generalize trimmedDigits (shortest rank) = digits at laid
  generalize writtenExponent rank = leading at laid
  split
  · next moderate =>
    have no_exponent : (positionalParts digits leading).exponent = [] := by
      unfold positionalParts
      split <;> rfl
    refine ⟨_, laid.isNumeral_positionalParts, (text_positionalParts laid.ne_nil leading).symm,
      iff_of_true no_exponent moderate, fun negative => ?_⟩
    rw [laid.isNumeral_positionalParts.magnitudeOfText? negative, no_exponent]
    exact congrArg some (laid.ofScientific_positionalParts negative hrank)
  · next extreme =>
    refine ⟨_, laid.isNumeral_scientificParts, (text_scientificParts digits leading).symm,
      iff_of_false (List.cons_ne_nil _ _) extreme, fun negative => ?_⟩
    have exponent : exponentOfText? (scientificParts digits leading).exponent = some leading :=
      exponentOfText?_signed leading
    rw [laid.isNumeral_scientificParts.magnitudeOfText? negative, exponent]
    exact congrArg some (laid.ofScientific_scientificParts negative hrank)

/-- A number is read back from its text. -/
theorem ofText?_text {words : Words}
    (hwords : words = plainWords ∨ words = structuredWords) (v : Binary64) :
    ofText? (v.text words).toList = some v := by
  cases v with
  | nan => rcases hwords with rfl | rfl <;> decide +kernel
  | infinite negative => rcases hwords with rfl | rfl <;> cases negative <;> decide +kernel
  | finite negative rank =>
      obtain ⟨parts, hnumeral, htext, -, hvalue⟩ := exists_parts_magnitudeText rank.isLt
      obtain ⟨c, rest, hcons, hc⟩ := hnumeral.exists_cons
      have value := hvalue negative
      rw [text, String.toList_ofList, htext]
      rw [hcons] at value ⊢
      cases negative with
      | true => exact (ofText?_of_splitSign rfl hc).trans value
      | false => exact (ofText?_of_isDigit rest hc).trans value

end Lox.Binary64
