/-!
# Double precision numbers

The values of the binary floating point format with 53 significant bits, without the format's bit
layout.  The nonnegative finite values are finitely many and stand in a row, so such a value is its
place in that row, its *rank*: zero has rank 0, the least positive value rank 1, and the order of
ranks is the order of values.  A value is measured in *units*, the least positive value
{lit}`2^-1074`, of which every finite value is a whole multiple.

The ranks fall into binades of equal length.  In the first two the values stand one unit apart, and
in each further one twice as far apart as in the one before.

Rounding works on exact quotients of natural numbers: the nearest value, and of two equally near
ones the one with the even significand.

Main results:

- `Binary64.units_eq_of_lt`: in the first two binades the ranks count units.
-/

namespace Lox

/-- A double precision number.  Signed zeros differ, and there is one value that is not a number. -/
inductive Binary64 where
  | nan
  | infinite (negative : Bool)
  | finite (negative : Bool) (rank : Fin 0x7FF0000000000000)
  deriving DecidableEq

namespace Binary64

/-- Positive or negative zero. -/
def zero (negative : Bool) : Binary64 :=
  .finite negative 0

/-! ## Size -/

/-- The number of values in a binade: a significand has 52 bits behind its leading one. -/
def binade : Nat := 0x10000000000000

/-- The number one, in units. -/
def unitsOfOne : Nat := 1 <<< 1074

/-- The significand of the value with the given rank.  Its leading bit is set from the second binade
on. -/
def significand (rank : Nat) : Nat :=
  if rank < binade then rank else binade + rank % binade

/-- How often the significand of the value with the given rank is doubled. -/
def doublings (rank : Nat) : Nat :=
  rank / binade - 1

/-- The value with the given rank, in units. -/
def units (rank : Nat) : Nat :=
  significand rank <<< doublings rank

/-- In the first two binades the ranks count units. -/
theorem units_eq_of_lt {rank : Nat} (h : rank < 2 * binade) : units rank = rank := by
  unfold units significand doublings
  split
  · next first =>
    rw [Nat.div_eq_of_lt first]
    rfl
  · next later =>
    have quotient : rank / binade = 1 := by
      simp only [binade] at h later ⊢
      omega
    have remainder : rank % binade = rank - binade := by
      simp only [binade] at h later ⊢
      omega
    rw [quotient, remainder]
    simp only [Nat.sub_self, Nat.shiftLeft_zero]
    omega

/-! ## Rounding -/

/-- The whole number nearest to a quotient, the even one of two equally near. -/
def roundHalfEven (num den : Nat) : Nat :=
  let quotient := num / den
  let remainder := num % den
  if 2 * remainder < den then quotient
  else if den < 2 * remainder then quotient + 1
  else quotient + quotient % 2

/-- The rank of the value nearest to the quotient, where the row of ranks goes on without a
greatest value.  The binary logarithm of the quotient in units tells how many low bits the 53 bits
of the significand cannot hold. -/
def nearestRank (num den : Nat) : Nat :=
  let scaled := num * unitsOfOne
  let dropped := (scaled / den).log2 - 52
  dropped * binade + roundHalfEven scaled (den <<< dropped)

/-- The value nearest to a quotient.  A magnitude that rounds beyond the greatest finite value is
infinite. -/
def ofRatio (negative : Bool) (num den : Nat) : Binary64 :=
  let rank := nearestRank num den
  if h : rank < 0x7FF0000000000000 then .finite negative ⟨rank, h⟩ else .infinite negative

end Binary64

end Lox
