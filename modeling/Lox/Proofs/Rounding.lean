import Lox.Binary64.Decimal
import Mathlib.Algebra.Order.Field.Rat
import Mathlib.Order.Monotone.Basic
import Mathlib.Tactic.FieldSimp
import Mathlib.Tactic.Linarith
import Mathlib.Tactic.Positivity
import Mathlib.Tactic.Ring

/-!
# Rounding to the nearest value

The values stand in a row that ascends with the rank, and the way from one to the next is as long as
the last bit of the significand counts.  The rank that a quotient is rounded to is that of a nearest
value: nearest on the grid of the binade that the quotient lies in, and so nearest of all.  Of two
nearest values it is the one with the even rank.

So a quotient is rounded beyond a value just if it lies beyond the middle behind the value.
Rounding keeps the order of quotients and depends on the quotient alone, and a decimal numeral may
be read with any exponent.

Main results:

- Theorem `Binary64.units_strictMono`: the order of ranks is the order of values.
- Theorem `Binary64.units_le_mul_dist`: other values are far from a value, by its size.
- Theorem `Binary64.isPreferred_nearestRank`: a quotient is rounded to a nearest value, of two to
  the even one.
- Theorem `Binary64.lt_nearestRank_iff`: where the value changes that a quotient is rounded to.
- Theorem `Binary64.nearestRank_mono`: a greater quotient is not rounded to a lesser value.
- Theorem `Binary64.ofScientific_eq_ofRatio`: a decimal is rounded from its exact value.
- Theorem `Binary64.ofScientific_mul_weight`: zeros may be moved from the digits to the exponent.
-/

namespace Lox.Binary64

open Numeral (weight weight_zero weight_succ weight_add weight_pos)

/-! ## The row of values -/

/-- Doubling is multiplying by a power of two. -/
theorem shiftLeft_eq_mul_weight (n places : Nat) : n <<< places = n * weight 2 places :=
  Nat.shiftLeft_eq n places

/-- What a place counts is a power of the base. -/
theorem cast_weight (base places : Nat) : ((weight base places : Nat) : ℚ) = (base : ℚ) ^ places :=
  Nat.cast_pow base places

/-- Powers of two are positive. -/
theorem weight_two_pos (places : Nat) : 0 < weight 2 places :=
  weight_pos Nat.two_pos places

/-- The value with a significand that has been doubled.  The first significand that is too wide
stands for the first value of the next binade. -/
theorem units_mul_binade_add {doubled digits : Nat} (hlow : doubled = 0 ∨ binade ≤ digits)
    (hhigh : digits ≤ 2 * binade) :
    units (doubled * binade + digits) = digits * weight 2 doubled := by
  rcases Nat.eq_or_lt_of_le hhigh with rfl | hlt
  · have rank : doubled * binade + 2 * binade = (doubled + 2) * binade := by ring
    have hsignificand : significand ((doubled + 2) * binade) = binade := by
      unfold significand binade
      split <;> omega
    have hdoublings : doublings ((doubled + 2) * binade) = doubled + 1 := by
      unfold doublings binade
      omega
    rw [rank, units, hsignificand, hdoublings, shiftLeft_eq_mul_weight, weight_succ]
    ring
  · by_cases hfirst : digits < binade
    · obtain rfl : doubled = 0 := by omega
      rw [Nat.zero_mul, Nat.zero_add, weight_zero, Nat.mul_one]
      exact units_eq_of_lt hlt
    · have hsignificand : significand (doubled * binade + digits) = digits := by
        unfold significand
        unfold binade at hlt hfirst ⊢
        split <;> omega
      have hdoublings : doublings (doubled * binade + digits) = doubled := by
        unfold doublings
        unfold binade at hlt hfirst ⊢
        omega
      rw [units, hsignificand, hdoublings, shiftLeft_eq_mul_weight]

/-- A rank is made of its doublings and its significand. -/
theorem exists_rank_eq (rank : Nat) :
    ∃ digits, rank = doublings rank * binade + digits ∧
      (doublings rank = 0 ∨ binade ≤ digits) ∧ digits < 2 * binade := by
  refine ⟨rank - doublings rank * binade, ?_⟩
  unfold doublings binade
  omega

/-- The next value is as far away as the last bit of the significand counts. -/
theorem units_succ (rank : Nat) : units (rank + 1) = units rank + weight 2 (doublings rank) := by
  obtain ⟨digits, hrank, hlow, hhigh⟩ := exists_rank_eq rank
  have here := units_mul_binade_add hlow hhigh.le
  have next : units (doublings rank * binade + (digits + 1)) = _ := units_mul_binade_add
    (hlow.imp_right fun h => Nat.le_succ_of_le h) hhigh
  rw [← hrank] at here
  rw [← Nat.add_assoc, ← hrank] at next
  rw [here, next]
  ring

/-- The value with rank zero is zero. -/
theorem units_zero : units 0 = 0 :=
  units_eq_of_lt (by decide)

/-- The order of ranks is the order of values. -/
theorem units_strictMono : StrictMono units :=
  strictMono_nat_of_lt_succ fun rank => by
    rw [units_succ]
    exact Nat.lt_add_of_pos_right (weight_two_pos _)

/-- The value behind a rank is small, measured by the last bit of the significand. -/
theorem units_succ_le (rank : Nat) : units (rank + 1) ≤ 2 * binade * weight 2 (doublings rank) := by
  obtain ⟨digits, hrank, hlow, hhigh⟩ := exists_rank_eq rank
  have next : units (doublings rank * binade + (digits + 1)) = _ := units_mul_binade_add
    (hlow.imp_right fun h => Nat.le_succ_of_le h) hhigh
  rw [← Nat.add_assoc, ← hrank] at next
  rw [next]
  exact Nat.mul_le_mul_right _ hhigh

/-- Values are whole multiples of the last bit of any significand that is doubled less often. -/
theorem weight_dvd_units {places rank : Nat} (h : places ≤ doublings rank) :
    weight 2 places ∣ units rank := by
  obtain ⟨more, hmore⟩ := Nat.exists_eq_add_of_le h
  rw [units, shiftLeft_eq_mul_weight, hmore, weight_add]
  exact Dvd.intro_left (significand rank * weight 2 more) (by ring)

/-- Two values are apart by no less than the last bit of the lesser counts. -/
theorem weight_le_dist {lesser greater : Nat} (h : lesser < greater) :
    units lesser + weight 2 (doublings lesser) ≤ units greater := by
  rw [← units_succ]
  exact units_strictMono.monotone h

/-- Other values are far from a value, by its size. -/
theorem units_le_mul_dist {rank other : Nat} (h : other ≠ rank) :
    (units rank : ℚ) ≤ 2 * binade * |(units rank : ℚ) - units other| := by
  rcases Nat.lt_or_gt_of_ne h with below | above
  · obtain ⟨last, rfl⟩ : ∃ last, rank = last + 1 := ⟨rank - 1, by omega⟩
    have small : (units (last + 1) : ℚ) ≤ 2 * binade * weight 2 (doublings last) := by
      exact_mod_cast units_succ_le last
    have apart : (units other : ℚ) + weight 2 (doublings last) ≤ units (last + 1) := by
      rw [units_succ]
      exact_mod_cast Nat.add_le_add_right
        (units_strictMono.monotone (Nat.le_of_lt_succ below)) _
    have dist : (weight 2 (doublings last) : ℚ) ≤ |(units (last + 1) : ℚ) - units other| :=
      le_trans (by linarith) (le_abs_self _)
    exact small.trans (mul_le_mul_of_nonneg_left dist (by positivity))
  · have small : (units rank : ℚ) ≤ 2 * binade * weight 2 (doublings rank) := by
      exact_mod_cast (units_strictMono (Nat.lt_succ_self rank)).le.trans (units_succ_le rank)
    have apart : (units rank : ℚ) + weight 2 (doublings rank) ≤ units other := by
      exact_mod_cast weight_le_dist above
    have dist : (weight 2 (doublings rank) : ℚ) ≤ |(units rank : ℚ) - units other| := by
      rw [abs_sub_comm]
      exact le_trans (by linarith) (le_abs_self _)
    exact small.trans (mul_le_mul_of_nonneg_left dist (by positivity))

/-! ## Preference -/

/-- One number is preferred to another as the rounding of a third: it is nearer, or it is as near
and even. -/
def IsPreferred (q x y : ℚ) (even : Prop) : Prop :=
  |q - x| < |q - y| ∨ |q - x| = |q - y| ∧ even

/-- A preferred number is as near as the other. -/
theorem IsPreferred.le {q x y : ℚ} {even : Prop} (h : IsPreferred q x y even) :
    |q - x| ≤ |q - y| := by
  rcases h with h | ⟨h, -⟩
  · exact h.le
  · exact h.le

/-- Preference does not depend on the scale. -/
theorem isPreferred_mul_right_iff {q x y : ℚ} {even : Prop} {scale : ℚ} (hscale : 0 < scale) :
    IsPreferred (q * scale) (x * scale) (y * scale) even ↔ IsPreferred q x y even := by
  unfold IsPreferred
  rw [← sub_mul, ← sub_mul, abs_mul, abs_mul, abs_of_pos hscale, mul_lt_mul_iff_left₀ hscale,
    mul_left_inj' hscale.ne']

/-! ## Rounding to whole numbers -/

/-- Rounding takes one of the two whole numbers around a quotient. -/
theorem roundHalfEven_eq (num den : Nat) :
    roundHalfEven num den = num / den ∨ roundHalfEven num den = num / den + 1 := by
  unfold roundHalfEven
  dsimp only
  split
  · exact .inl rfl
  · split
    · exact .inr rfl
    · omega

/-- Rounding moves a quotient by less than a half, or by a half and to an even number. -/
theorem abs_sub_roundHalfEven (num : Nat) {den : Nat} (hden : 0 < den) :
    |(num : ℚ) / den - roundHalfEven num den| < 1 / 2 ∨
      |(num : ℚ) / den - roundHalfEven num den| = 1 / 2 ∧ Even (roundHalfEven num den) := by
  have hden' : (0 : ℚ) < den := by exact_mod_cast hden
  have whole : (num : ℚ) / den = (num / den : Nat) + (num % den : Nat) / den := by
    rw [div_eq_iff hden'.ne', add_mul, div_mul_cancel₀ _ hden'.ne']
    exact_mod_cast (Nat.div_add_mod' num den).symm
  have hrest : ((num % den : Nat) : ℚ) / den < 1 := by
    rw [div_lt_one hden']
    exact_mod_cast Nat.mod_lt num hden
  have hpos : (0 : ℚ) ≤ ((num % den : Nat) : ℚ) / den := by positivity
  rw [whole]
  unfold roundHalfEven
  dsimp only
  split
  · next low =>
    have half : ((num % den : Nat) : ℚ) / den < 1 / 2 := by
      rw [div_lt_iff₀ hden']
      have : (2 * (num % den : Nat) : ℚ) < den := by exact_mod_cast low
      linarith
    refine .inl ?_
    rw [abs_lt]
    constructor <;> linarith
  · split
    · next _ high =>
      have half : 1 / 2 < ((num % den : Nat) : ℚ) / den := by
        rw [lt_div_iff₀ hden']
        have : (den : ℚ) < 2 * (num % den : Nat) := by exact_mod_cast high
        linarith
      refine .inl ?_
      push_cast
      rw [abs_lt]
      constructor <;> linarith
    · next low high =>
      have half : ((num % den : Nat) : ℚ) / den = 1 / 2 := by
        rw [div_eq_iff hden'.ne']
        have : (2 * (num % den : Nat) : ℚ) = den := by
          exact_mod_cast Nat.le_antisymm (Nat.le_of_not_lt high) (Nat.le_of_not_lt low)
        linarith
      refine .inr ⟨?_, Nat.even_iff.2 (by omega)⟩
      rcases Nat.mod_two_eq_zero_or_one (num / den) with even | odd
      · rw [even, half]
        norm_num
      · rw [odd, half]
        push_cast
        norm_num

/-- Rounding moves a quotient by a half at most. -/
theorem abs_sub_roundHalfEven_le (num : Nat) {den : Nat} (hden : 0 < den) :
    |(num : ℚ) / den - roundHalfEven num den| ≤ 1 / 2 := by
  rcases abs_sub_roundHalfEven num hden with h | ⟨h, -⟩
  · exact h.le
  · exact h.le

/-- The whole number that a quotient is rounded to is preferred to every other. -/
theorem isPreferred_roundHalfEven (num : Nat) {den other : Nat} (hden : 0 < den)
    (h : other ≠ roundHalfEven num den) :
    IsPreferred ((num : ℚ) / den) (roundHalfEven num den) other
      (Even (roundHalfEven num den)) := by
  have apart : (1 : ℚ) ≤ |(roundHalfEven num den : ℚ) - other| := by
    have : (1 : ℤ) ≤ |(roundHalfEven num den : ℤ) - other| := Int.one_le_abs (by omega)
    exact_mod_cast this
  have triangle := abs_sub_le (roundHalfEven num den : ℚ) ((num : ℚ) / den) other
  rw [abs_sub_comm (roundHalfEven num den : ℚ) ((num : ℚ) / den)] at triangle
  rcases abs_sub_roundHalfEven num hden with near | ⟨half, even⟩
  · exact .inl (by linarith)
  · have nearest : |(num : ℚ) / den - roundHalfEven num den| ≤ |(num : ℚ) / den - other| := by
      linarith
    exact (lt_or_eq_of_le nearest).imp_right fun same => ⟨same, even⟩

/-! ## Rounding to values -/

/-- How many low bits of a quotient in units do not fit into a significand. -/
def dropped (num den : Nat) : Nat :=
  (num * unitsOfOne / den).log2 - 52

/-- The bits of a quotient that do fit, rounded. -/
def roundedDigits (num den : Nat) : Nat :=
  roundHalfEven (num * unitsOfOne) (den * weight 2 (dropped num den))

/-- A quotient is rounded to its last bit that fits. -/
theorem nearestRank_eq (num den : Nat) :
    nearestRank num den = dropped num den * binade + roundedDigits num den := by
  rw [nearestRank, roundedDigits, dropped, shiftLeft_eq_mul_weight]

/-- The bits that fit make up a significand, which is full if bits are dropped. -/
theorem significand_bounds (num den : Nat) :
    (dropped num den = 0 ∨ binade ≤ num * unitsOfOne / (den * weight 2 (dropped num den))) ∧
      num * unitsOfOne / (den * weight 2 (dropped num den)) < 2 * binade := by
  unfold dropped
  rw [← Nat.div_div_eq_div_mul]
  generalize num * unitsOfOne / den = whole
  have below : whole < weight 2 (whole.log2 + 1) := Nat.lt_log2_self
  constructor
  · by_cases hnone : whole.log2 ≤ 52
    · exact .inl (Nat.sub_eq_zero_of_le hnone)
    · have full : weight 2 whole.log2 ≤ whole := Nat.log2_self_le (by rintro rfl; simp at hnone)
      have split : weight 2 whole.log2 = binade * weight 2 (whole.log2 - 52) := by
        conv_lhs => rw [show whole.log2 = 52 + (whole.log2 - 52) by omega, weight_add]
        rfl
      rw [split] at full
      exact .inr ((Nat.le_div_iff_mul_le (weight_two_pos _)).2 full)
  · have more : weight 2 (whole.log2 + 1) ≤ 2 * binade * weight 2 (whole.log2 - 52) := by
      have split : 2 * binade * weight 2 (whole.log2 - 52) = weight 2 (53 + (whole.log2 - 52)) := by
        rw [weight_add]
        rfl
      rw [split]
      exact Nat.pow_le_pow_right (by decide) (by omega)
    exact (Nat.div_lt_iff_lt_mul (weight_two_pos _)).2 (below.trans_le more)

/-- The value that a quotient is rounded to is its rounded bits in their places. -/
theorem units_nearestRank (num den : Nat) :
    units (nearestRank num den) = roundedDigits num den * weight 2 (dropped num den) := by
  obtain ⟨hlow, hhigh⟩ := significand_bounds num den
  have rounded : roundedDigits num den = _ ∨ roundedDigits num den = _ := roundHalfEven_eq _ _
  rw [nearestRank_eq]
  refine units_mul_binade_add (hlow.imp_right fun h => ?_) ?_ <;> omega

/-- One, in units. -/
theorem unitsOfOne_pos : (0 : ℚ) < unitsOfOne := by
  exact_mod_cast (by decide : 0 < unitsOfOne)

/-- A quotient, measured in units. -/
def inUnits (num den : Nat) : ℚ :=
  num * unitsOfOne / den

/-- On the grid of its binade, where rounding is rounding to whole numbers, the point that a
quotient is rounded to is preferred to every other. -/
theorem isPreferred_grid (num : Nat) {den digits : Nat} (hden : 0 < den)
    (h : digits ≠ roundedDigits num den) :
    IsPreferred (inUnits num den) (units (nearestRank num den))
      (digits * weight 2 (dropped num den) : Nat) (Even (roundedDigits num den)) := by
  have hden' : (0 : ℚ) < den := by exact_mod_cast hden
  have place : (0 : ℚ) < weight 2 (dropped num den) := by
    exact_mod_cast weight_two_pos (dropped num den)
  have scaled : inUnits num den =
      ((num * unitsOfOne : Nat) : ℚ) / (den * weight 2 (dropped num den) : Nat) *
        weight 2 (dropped num den) := by
    rw [inUnits]
    push_cast
    field_simp
  have nearest := isPreferred_roundHalfEven (num * unitsOfOne)
    (Nat.mul_pos hden (weight_two_pos (dropped num den))) h
  rw [units_nearestRank, scaled, Nat.cast_mul (roundedDigits num den), Nat.cast_mul digits]
  exact (isPreferred_mul_right_iff place).2 nearest

/-- On the grid of its binade a quotient is rounded to a nearest point. -/
theorem nearestRank_le_dist_grid (num : Nat) {den : Nat} (hden : 0 < den) (digits : Nat) :
    |inUnits num den - units (nearestRank num den)| ≤
      |inUnits num den - (digits * weight 2 (dropped num den) : Nat)| := by
  by_cases same : digits = roundedDigits num den
  · rw [same, ← units_nearestRank]
  · exact (isPreferred_grid num hden same).le

/-- A quotient with bits that do not fit reaches the first value of its binade. -/
theorem binade_le_inUnits (num : Nat) {den : Nat} (hden : 0 < den) (h : dropped num den ≠ 0) :
    ((binade * weight 2 (dropped num den) : Nat) : ℚ) ≤ inUnits num den := by
  have hden' : (0 : ℚ) < den := by exact_mod_cast hden
  have full := (significand_bounds num den).1.resolve_left h
  have reached : binade * weight 2 (dropped num den) * den ≤ num * unitsOfOne := by
    rw [Nat.mul_assoc, Nat.mul_comm (weight 2 _)]
    exact (Nat.le_div_iff_mul_le (Nat.mul_pos hden (weight_two_pos (dropped num den)))).1 full
  rw [inUnits, le_div_iff₀ hden']
  exact_mod_cast reached

/-- A rank is even if its significand is. -/
theorem even_nearestRank {num den : Nat} (h : Even (roundedDigits num den)) :
    Even (nearestRank num den) := by
  rw [nearestRank_eq]
  have binades : Even binade := by decide
  exact (binades.mul_left _).add h

/-- The value that a quotient is rounded to is preferred to every other. -/
theorem isPreferred_nearestRank (num : Nat) {den rank : Nat} (hden : 0 < den)
    (h : rank ≠ nearestRank num den) :
    IsPreferred (inUnits num den) (units (nearestRank num den)) (units rank)
      (Even (nearestRank num den)) := by
  by_cases hgrid : dropped num den ≤ doublings rank
  · obtain ⟨digits, hdigits⟩ := weight_dvd_units hgrid
    rw [Nat.mul_comm] at hdigits
    have other : digits ≠ roundedDigits num den := by
      rintro rfl
      rw [← units_nearestRank] at hdigits
      exact h (units_strictMono.injective hdigits)
    rw [hdigits]
    exact (isPreferred_grid num hden other).imp_right fun h => ⟨h.1, even_nearestRank h.2⟩
  · -- a value of an earlier binade is further away than the first of this one
    have beyond := binade_le_inUnits num hden (by omega)
    have first : (units rank : ℚ) < (binade * weight 2 (dropped num den) : Nat) := by
      have earlier : rank < dropped num den * binade + binade := by
        unfold doublings at hgrid
        unfold binade at hgrid ⊢
        omega
      rw [← units_mul_binade_add (.inr le_rfl) (by decide)]
      exact_mod_cast units_strictMono earlier
    refine .inl ((nearestRank_le_dist_grid num hden binade).trans_lt ?_)
    rw [abs_of_nonneg (by linarith), abs_of_nonneg (by linarith)]
    linarith

/-- A quotient is rounded to a nearest value. -/
theorem nearestRank_le_dist (num : Nat) {den : Nat} (hden : 0 < den) (rank : Nat) :
    |inUnits num den - units (nearestRank num den)| ≤ |inUnits num den - units rank| := by
  by_cases same : rank = nearestRank num den
  · rw [same]
  · exact (isPreferred_nearestRank num hden same).le

/-- A quotient close to a value is rounded to it: closer than half the way to any other. -/
theorem nearestRank_eq_of_dist_lt {num den rank : Nat} (hden : 0 < den)
    (h : ∀ other, other ≠ rank →
      2 * |inUnits num den - units rank| < |(units rank : ℚ) - units other|) :
    nearestRank num den = rank := by
  by_contra hne
  have nearest := nearestRank_le_dist num hden rank
  have triangle := abs_sub_le (units rank : ℚ) (inUnits num den) (units (nearestRank num den))
  rw [abs_sub_comm (units rank : ℚ) (inUnits num den)] at triangle
  linarith [h _ hne]

/-- A value has its own size in units. -/
theorem inUnits_units (rank : Nat) : inUnits (units rank) unitsOfOne = units rank :=
  mul_div_cancel_right₀ _ unitsOfOne_pos.ne'

/-- A value is the nearest one to itself. -/
theorem nearestRank_units (rank : Nat) : nearestRank (units rank) unitsOfOne = rank := by
  refine nearestRank_eq_of_dist_lt (by decide) fun other hother => ?_
  have apart : (units rank : ℚ) - units other ≠ 0 := by
    rw [sub_ne_zero]
    exact_mod_cast fun same : units rank = units other =>
      hother (units_strictMono.injective same.symm)
  rw [inUnits_units, sub_self, abs_zero, mul_zero]
  exact abs_pos.2 apart

/-! ## The order of roundings -/

/-- The greater of two numbers is nearer to a third exactly if the third lies beyond the middle. -/
theorem dist_lt_dist_iff {a b q : ℚ} (h : a < b) : |q - b| < |q - a| ↔ a + b < 2 * q := by
  rw [← sq_lt_sq]
  constructor
  · intro hsq
    nlinarith
  · intro hsum
    nlinarith

/-- Two numbers are equally near to a third exactly if the third lies in the middle. -/
theorem dist_eq_dist_iff {a b q : ℚ} (h : a < b) : |q - b| = |q - a| ↔ a + b = 2 * q := by
  rw [← sq_eq_sq_iff_abs_eq_abs]
  constructor
  · intro hsq
    have : (b - a) * (a + b - 2 * q) = 0 := by linarith
    rcases mul_eq_zero.1 this with hdist | hsum <;> linarith
  · intro hsum
    obtain rfl : b = 2 * q - a := by linarith
    ring

/-- A quotient is rounded beyond a value exactly if it lies beyond the middle of the value and the
next one, or in the middle and the next one is the even one. -/
theorem lt_nearestRank_iff {num den : Nat} (hden : 0 < den) (rank : Nat) :
    rank < nearestRank num den ↔
      (units rank + units (rank + 1) : ℚ) < 2 * inUnits num den ∨
        (units rank + units (rank + 1) : ℚ) = 2 * inUnits num den ∧ Odd rank := by
  have ascending {lesser greater : Nat} (h : lesser < greater) :
      (units lesser : ℚ) < units greater := by
    exact_mod_cast units_strictMono h
  constructor
  · intro h
    have near := isPreferred_nearestRank num hden h.ne
    rw [IsPreferred, dist_lt_dist_iff (ascending h), dist_eq_dist_iff (ascending h)] at near
    rcases Nat.eq_or_lt_of_le (Nat.succ_le_of_lt h) with next | further
    · rw [← next] at near
      refine near.imp_right fun h => ⟨h.1, ?_⟩
      exact Nat.not_even_iff_odd.1 fun even => Nat.not_even_iff_odd.2 even.add_one h.2
    · have := ascending further
      refine .inl ?_
      rcases near with near | ⟨near, -⟩ <;> linarith
  · intro h
    by_contra hle
    have below : nearestRank num den < rank + 1 := by omega
    have lower : (units (nearestRank num den) : ℚ) ≤ units rank := by
      exact_mod_cast units_strictMono.monotone (Nat.le_of_lt_succ below)
    rcases isPreferred_nearestRank num hden below.ne' with near | ⟨near, even⟩
    · have short := near.not_gt
      have uneven := near.ne'
      rw [dist_lt_dist_iff (ascending below), not_lt] at short
      rw [Ne, dist_eq_dist_iff (ascending below)] at uneven
      have before := lt_of_le_of_ne short (Ne.symm uneven)
      rcases h with h | ⟨h, -⟩ <;> linarith
    · rw [eq_comm, dist_eq_dist_iff (ascending below)] at near
      rcases h with h | ⟨h, odd⟩
      · linarith
      · have same : (units (nearestRank num den) : ℚ) = units rank := by linarith
        have rank_eq : nearestRank num den = rank :=
          units_strictMono.injective (by exact_mod_cast same)
        rw [rank_eq] at even
        exact Nat.not_even_iff_odd.2 odd even

/-- A greater quotient is not rounded to a lesser value. -/
theorem nearestRank_mono {num den num' den' : Nat} (hden : 0 < den) (hden' : 0 < den')
    (h : inUnits num den ≤ inUnits num' den') : nearestRank num den ≤ nearestRank num' den' := by
  refine le_of_forall_lt fun rank hrank => ?_
  rw [lt_nearestRank_iff hden] at hrank
  rw [lt_nearestRank_iff hden']
  rcases hrank with beyond | ⟨middle, odd⟩
  · exact .inl (by linarith)
  · exact (lt_or_eq_of_le (middle.le.trans (by linarith))).imp_right fun same => ⟨same, odd⟩

/-! ## Equal quotients -/

/-- Equal quotients are rounded alike. -/
theorem nearestRank_congr {num den num' den' : Nat} (hden : 0 < den) (hden' : 0 < den')
    (h : num * den' = num' * den) : nearestRank num den = nearestRank num' den' := by
  have same : inUnits num den = inUnits num' den' := by
    have cast : (num * den' : ℚ) = num' * den := by exact_mod_cast h
    rw [inUnits, inUnits, div_eq_div_iff (by exact_mod_cast hden.ne') (by exact_mod_cast hden'.ne')]
    rw [mul_right_comm, cast, mul_right_comm]
  exact le_antisymm (nearestRank_mono hden hden' same.le) (nearestRank_mono hden' hden same.ge)

/-- Equal quotients stand for the same number. -/
theorem ofRatio_congr (negative : Bool) {num den num' den' : Nat} (hden : 0 < den)
    (hden' : 0 < den') (h : num * den' = num' * den) :
    ofRatio negative num den = ofRatio negative num' den' := by
  simp only [ofRatio, nearestRank_congr hden hden' h]

/-! ## Decimals -/

/-- The rank beyond the greatest finite value. -/
def rankLimit : Nat := 0x7FF0000000000000

/-- A quotient whose rank lies in the row is finite. -/
theorem ofRatio_of_nearestRank (negative : Bool) {num den rank : Nat}
    (h : nearestRank num den = rank) (hrank : rank < rankLimit) :
    ofRatio negative num den = .finite negative ⟨rank, hrank⟩ := by
  subst h
  exact dif_pos hrank

/-- A quotient whose rank lies beyond the row is infinite. -/
theorem ofRatio_of_le_nearestRank (negative : Bool) {num den : Nat}
    (h : rankLimit ≤ nearestRank num den) : ofRatio negative num den = .infinite negative :=
  dif_neg (Nat.not_lt.2 h)

/-- A finite rounding tells the rank. -/
theorem nearestRank_of_ofRatio {negative sign : Bool} {num den : Nat}
    {rank : Fin 0x7FF0000000000000} (h : ofRatio negative num den = .finite sign rank) :
    nearestRank num den = rank := by
  by_cases hrank : nearestRank num den < rankLimit
  · rw [ofRatio_of_nearestRank negative rfl hrank] at h
    injection h with _ hsame
    exact congrArg Fin.val hsame
  · rw [ofRatio_of_le_nearestRank negative (Nat.le_of_not_lt hrank)] at h
    cases h

/-- A quotient that reaches the place of the first value beyond the greatest is infinite. -/
theorem ofRatio_eq_infinite (negative : Bool) {num den : Nat} (hden : 0 < den)
    (h : units rankLimit * den ≤ num * unitsOfOne) :
    ofRatio negative num den = .infinite negative := by
  have hden' : (0 : ℚ) < den := by exact_mod_cast hden
  refine ofRatio_of_le_nearestRank negative (Nat.le_of_not_lt fun below => ?_)
  have lesser : (units (nearestRank num den) : ℚ) < units rankLimit := by
    exact_mod_cast units_strictMono below
  have reached : (units rankLimit : ℚ) ≤ inUnits num den := by
    rw [inUnits, le_div_iff₀ hden']
    exact_mod_cast h
  have nearest := nearestRank_le_dist num hden rankLimit
  rw [abs_of_nonneg (by linarith), abs_of_nonneg (by linarith)] at nearest
  linarith

/-- A decimal is rounded from its exact value, also where the power of ten is not computed. -/
theorem ofScientific_eq_ofRatio (negative : Bool) (digits : Nat) (exponent : Int) :
    ofScientific negative digits exponent =
      ofRatio negative (digits * weight 10 exponent.toNat) (weight 10 (-exponent).toNat) := by
  rcases Int.lt_or_le exponent 0 with hneg | hnonneg
  · obtain ⟨places, rfl⟩ : ∃ places : Nat, exponent = -places := ⟨(-exponent).toNat, by omega⟩
    have up : (-(places : Int)).toNat = 0 := by omega
    have down : (-(-(places : Int))).toNat = places := by omega
    rw [ofScientific_neg_natCast, up, down, weight_zero, Nat.mul_one]
  · have down : (-exponent).toNat = 0 := by omega
    rw [down, weight_zero]
    by_cases hdigits : digits = 0
    · subst hdigits
      rw [Nat.zero_mul, ofRatio_eq_zero negative (by decide)]
      simp [ofScientific]
    by_cases hcut : exponent < 310
    · exact ofScientific_of_nonneg hdigits hnonneg hcut
    · obtain ⟨more, hmore⟩ := Nat.exists_eq_add_of_le (show 310 ≤ exponent.toNat by omega)
      have limit : units rankLimit ≤ weight 10 310 * unitsOfOne := by decide +kernel
      have reached : units rankLimit * 1 ≤ digits * weight 10 exponent.toNat * unitsOfOne :=
        calc
          units rankLimit * 1 ≤ weight 10 310 * unitsOfOne := by rwa [Nat.mul_one]
          _ ≤ digits * weight 10 exponent.toNat * unitsOfOne := by
            refine Nat.mul_le_mul_right _ ?_
            rw [hmore, weight_add]
            exact (Nat.le_mul_of_pos_right _ (weight_pos (by decide) more)).trans
              (Nat.le_mul_of_pos_left _ (Nat.pos_of_ne_zero hdigits))
      rw [ofRatio_eq_infinite negative Nat.one_pos reached]
      unfold ofScientific
      rw [if_neg hdigits, if_pos (by omega)]

/-- Zeros at the end of the digits may be counted by the exponent instead. -/
theorem ofScientific_mul_weight (negative : Bool) (digits places : Nat) (exponent : Int) :
    ofScientific negative (digits * weight 10 places) exponent =
      ofScientific negative digits (exponent + places) := by
  have hten : 0 < 10 := by decide
  rw [ofScientific_eq_ofRatio, ofScientific_eq_ofRatio]
  refine ofRatio_congr negative (weight_pos hten _) (weight_pos hten _) ?_
  have shifts : places + exponent.toNat + (-(exponent + places)).toNat =
      (exponent + places).toNat + (-exponent).toNat := by omega
  rw [Nat.mul_assoc digits, Nat.mul_assoc digits, Nat.mul_assoc digits, ← weight_add, ← weight_add,
    ← weight_add, shifts]

end Lox.Binary64
