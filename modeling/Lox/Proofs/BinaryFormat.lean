import Lox.Proofs.Rounding
import Mathlib.Algebra.Order.Field.Power

/-!
# The binary format

The finite values of the format are rational numbers: a significand of at most 53 bits times a power
of two.  Ranks were made to count them.  A rational number is rounded to the nearest value, of two
equally near ones to the one with the even significand, and to infinity from a half step beyond the
greatest value on.

Main results:

- Theorem `Binary64.isBinary_units`, `Binary64.exists_rank_of_isBinary`: the values with a rank are
  the values of the format.
- Theorem `Binary64.isRounding_ofRatio`: a quotient is rounded correctly.
- Theorem `Binary64.ofRatio_le`: a greater quotient is not rounded to a lesser number.
-/

namespace Lox.Binary64

open Numeral (weight)

/-! ## Values -/

/-- The exact value of a finite number. -/
def toRat? : Binary64 → Option ℚ
  | finite negative rank => some ((if negative then -1 else 1) * (units rank / unitsOfOne))
  | _ => none

/-- The exact value of a number without a sign. -/
theorem toRat?_finite (rank : Fin 0x7FF0000000000000) :
    (finite false rank).toRat? = some ((units rank : ℚ) / unitsOfOne) := by
  rw [toRat?, if_neg Bool.false_ne_true, one_mul]

/-- The sign of a number.  A negative zero has one too. -/
def isNegative : Binary64 → Bool
  | nan => false
  | infinite negative => negative
  | finite negative _ => negative

/-- A number is not greater than another.  What is no number is not compared. -/
inductive Le : Binary64 → Binary64 → Prop
  | finite {v w : Binary64} {x y : ℚ} (hv : v.toRat? = some x) (hw : w.toRat? = some y)
      (h : x ≤ y) : Le v w
  | least {v : Binary64} (h : v ≠ nan) : Le (infinite true) v
  | greatest {v : Binary64} (h : v ≠ nan) : Le v (infinite false)

/-- A rational number has a significand and an exponent in the format.  The significand is full
unless the exponent is the least one. -/
structure IsBinary (x : ℚ) (digits : ℕ) (exponent : ℤ) : Prop where
  abs_eq : |x| = digits * 2 ^ exponent
  digits_lt : digits < 2 ^ 53
  full : exponent = -1074 ∨ 2 ^ 52 ≤ digits
  le_exponent : -1074 ≤ exponent
  exponent_le : exponent ≤ 971

/-- One, in units, is a power of two. -/
theorem cast_unitsOfOne : (unitsOfOne : ℚ) = 2 ^ (1074 : ℤ) := by
  have power : unitsOfOne = weight 2 1074 := by
    rw [unitsOfOne, shiftLeft_eq_mul_weight, Nat.one_mul]
  rw [power, cast_weight, Nat.cast_ofNat, zpow_ofNat]

/-- A significand that is doubled some times, in units. -/
theorem mul_weight_div_unitsOfOne (digits doubled : ℕ) :
    ((digits * weight 2 doubled : ℕ) : ℚ) / unitsOfOne = digits * 2 ^ ((doubled : ℤ) - 1074) := by
  rw [cast_unitsOfOne, zpow_sub₀ two_ne_zero, zpow_natCast, Nat.cast_mul, cast_weight,
    Nat.cast_ofNat, mul_div_assoc]

/-- The value with a rank has the significand and the doublings of the rank. -/
theorem isBinary_units {rank : ℕ} (h : rank < rankLimit) :
    IsBinary (units rank / unitsOfOne) (significand rank) (doublings rank - 1074) where
  abs_eq := by
    have nonneg : (0 : ℚ) ≤ units rank / unitsOfOne := by positivity
    rw [abs_of_nonneg nonneg, units, shiftLeft_eq_mul_weight, mul_weight_div_unitsOfOne]
  digits_lt := by
    unfold significand binade
    split <;> omega
  full := by
    unfold significand doublings binade
    split <;> omega
  le_exponent := by omega
  exponent_le := by
    unfold doublings binade
    unfold rankLimit at h
    omega

/-- A value of the format has a rank. -/
theorem exists_rank_of_isBinary {x : ℚ} {digits : ℕ} {exponent : ℤ}
    (h : IsBinary x digits exponent) :
    ∃ rank < rankLimit, |x| = units rank / unitsOfOne := by
  obtain ⟨doubled, hdoubled⟩ := Int.eq_ofNat_of_zero_le (a := exponent + 1074)
    (by have := h.le_exponent; omega)
  obtain rfl : exponent = (doubled : ℤ) - 1074 := by omega
  have low := h.full
  have high := h.digits_lt
  have bounded := h.exponent_le
  refine ⟨doubled * binade + digits, ?_, ?_⟩
  · unfold rankLimit binade
    omega
  · rw [units_mul_binade_add, mul_weight_div_unitsOfOne, h.abs_eq]
    · unfold binade
      omega
    · unfold binade
      omega

/-- A rank is even exactly if its significand is. -/
theorem even_significand {rank : ℕ} (h : Even rank) : Even (significand rank) := by
  rw [Nat.even_iff] at h ⊢
  unfold significand binade
  split <;> omega

/-! ## Correct rounding -/

/-- A value of the format is the nearest one to a rational number: it is preferred to every other
value, of either sign. -/
def IsNearestEven (q x : ℚ) : Prop :=
  ∃ digits exponent, IsBinary x digits exponent ∧
    ∀ y digits' exponent', IsBinary y digits' exponent' → y ≠ x →
      IsPreferred q x y (Even digits)

/-- The least rational number that is rounded to infinity: half a step beyond the greatest value. -/
def overflow : ℚ :=
  2 ^ 1024 - 2 ^ 970

/-- What a rational number is rounded to. -/
inductive IsRounding (q : ℚ) : Binary64 → Prop
  | finite {v : Binary64} {x : ℚ} (value : v.toRat? = some x) (nearest : IsNearestEven q x)
      (bounded : q < overflow) : IsRounding q v
  | infinite (beyond : overflow ≤ q) : IsRounding q (.infinite false)

/-- A rational number is rounded to infinity exactly if it overflows. -/
theorem IsRounding.eq_infinite_iff {q : ℚ} {v : Binary64} (h : IsRounding q v) :
    v = .infinite false ↔ overflow ≤ q := by
  cases h with
  | finite value nearest bounded =>
      refine iff_of_false ?_ (not_le.2 bounded)
      rintro rfl
      cases value
  | infinite beyond => exact iff_of_true rfl beyond

/-- A rational number is rounded to a finite number exactly if it does not overflow. -/
theorem IsRounding.isSome_toRat?_iff {q : ℚ} {v : Binary64} (h : IsRounding q v) :
    v.toRat?.isSome = true ↔ ¬overflow ≤ q := by
  cases h with
  | finite value nearest bounded => exact iff_of_true (by rw [value]; rfl) (not_le.2 bounded)
  | infinite beyond => exact iff_of_false Bool.false_ne_true (not_not_intro beyond)

section

variable {num den : ℕ}

/-- A quotient in units is as many units as one has times the quotient. -/
theorem inUnits_eq (num den : ℕ) : inUnits num den = num / den * unitsOfOne := by
  rw [inUnits, div_mul_eq_mul_div]

/-- The rank of a quotient lies beyond all finite values exactly if it overflows. -/
theorem rankLimit_le_nearestRank_iff (hden : 0 < den) :
    rankLimit ≤ nearestRank num den ↔ overflow ≤ (num : ℚ) / den := by
  have middle : (units (rankLimit - 1) + units rankLimit : ℚ) = 2 * (overflow * unitsOfOne) := by
    have sum : units (rankLimit - 1) + units rankLimit + 2 * weight 2 970 * unitsOfOne =
        2 * weight 2 1024 * unitsOfOne := by decide +kernel
    have powers : overflow = (weight 2 1024 : ℚ) - weight 2 970 := by
      rw [overflow, cast_weight, cast_weight, Nat.cast_ofNat]
    rw [powers]
    generalize weight 2 1024 = greatest at sum ⊢
    generalize weight 2 970 = half at sum ⊢
    have cast := congrArg (Nat.cast : ℕ → ℚ) sum
    push_cast at cast
    linarith
  have odd : Odd (rankLimit - 1) := by decide
  have scaled : overflow * unitsOfOne ≤ inUnits num den ↔ overflow ≤ (num : ℚ) / den := by
    rw [inUnits_eq]
    exact mul_le_mul_iff_left₀ unitsOfOne_pos
  have beyond : rankLimit - 1 < nearestRank num den ↔ _ := lt_nearestRank_iff hden _
  rw [show rankLimit - 1 + 1 = rankLimit from rfl, middle, eq_comm, and_iff_left odd, eq_comm,
    ← le_iff_lt_or_eq, mul_le_mul_iff_right₀ two_pos, scaled] at beyond
  exact beyond

/-- The value that a quotient is rounded to is the nearest one of the format, if it is finite. -/
theorem isNearestEven_nearestRank (hden : 0 < den) (h : nearestRank num den < rankLimit) :
    IsNearestEven (num / den) (units (nearestRank num den) / unitsOfOne) := by
  have hone := unitsOfOne_pos
  refine ⟨_, _, isBinary_units h, ?_⟩
  intro y digits exponent hy hne
  obtain ⟨rank, -, hrank⟩ := exists_rank_of_isBinary hy
  rw [← isPreferred_mul_right_iff hone, ← inUnits_eq, div_mul_cancel₀ _ hone.ne']
  rw [eq_div_iff hone.ne'] at hrank
  rcases abs_cases y with ⟨habs, -⟩ | ⟨habs, hneg⟩
  · rw [habs] at hrank
    have other : rank ≠ nearestRank num den := by
      rintro rfl
      exact hne (eq_div_of_mul_eq hone.ne' hrank)
    rw [hrank]
    exact (isPreferred_nearestRank num hden other).imp_right fun h =>
      ⟨h.1, even_significand h.2⟩
  · -- a value below zero is further away than zero
    have nearest := nearestRank_le_dist num hden 0
    have nonneg : 0 ≤ inUnits num den :=
      div_nonneg (mul_nonneg (Nat.cast_nonneg num) hone.le) (Nat.cast_nonneg den)
    have below : y * unitsOfOne < 0 := mul_neg_of_neg_of_pos hneg hone
    rw [units_zero, Nat.cast_zero, sub_zero, abs_of_nonneg nonneg] at nearest
    refine .inl (nearest.trans_lt ?_)
    rw [abs_of_pos (by linarith)]
    linarith

/-- A rounded quotient is a number. -/
theorem ofRatio_ne_nan (negative : Bool) (num den : ℕ) : ofRatio negative num den ≠ nan := by
  unfold ofRatio
  dsimp only
  split <;> simp

/-- A rounded quotient has the sign that it is given. -/
theorem isNegative_ofRatio (negative : Bool) (num den : ℕ) :
    (ofRatio negative num den).isNegative = negative := by
  unfold ofRatio
  dsimp only
  split <;> rfl

/-- A quotient is rounded correctly. -/
theorem isRounding_ofRatio (hden : 0 < den) : IsRounding (num / den) (ofRatio false num den) := by
  by_cases hrank : nearestRank num den < rankLimit
  · rw [ofRatio_of_nearestRank false rfl hrank]
    refine .finite (toRat?_finite _) (isNearestEven_nearestRank hden hrank) ?_
    rwa [← not_le, ← rankLimit_le_nearestRank_iff hden, not_le]
  · rw [ofRatio_of_le_nearestRank false (not_lt.1 hrank)]
    exact .infinite ((rankLimit_le_nearestRank_iff hden).1 (not_lt.1 hrank))

/-- A greater quotient is not rounded to a lesser number. -/
theorem ofRatio_le {num' den' : ℕ} (hden : 0 < den) (hden' : 0 < den')
    (h : (num : ℚ) / den ≤ num' / den') :
    Le (ofRatio false num den) (ofRatio false num' den') := by
  have scaled : inUnits num den ≤ inUnits num' den' := by
    rw [inUnits_eq, inUnits_eq]
    exact mul_le_mul_of_nonneg_right h unitsOfOne_pos.le
  have ordered := nearestRank_mono hden hden' scaled
  by_cases hrank : nearestRank num' den' < rankLimit
  · rw [ofRatio_of_nearestRank false rfl hrank,
      ofRatio_of_nearestRank false rfl (ordered.trans_lt hrank)]
    refine .finite (toRat?_finite _) (toRat?_finite _) ?_
    refine div_le_div_of_nonneg_right ?_ unitsOfOne_pos.le
    exact_mod_cast units_strictMono.monotone ordered
  · rw [ofRatio_of_le_nearestRank false (not_lt.1 hrank)]
    exact .greatest (ofRatio_ne_nan false num den)

end

end Lox.Binary64
