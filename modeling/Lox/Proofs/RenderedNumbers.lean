import Lox.Dump
import Lox.Proofs.NumberLiterals
import Lox.Proofs.ShortestText

/-!
# Numbers that are written out

Whether a number is written with an exponent is decided by the place of the first digit that is
written for it, which depends on all values around the number.  It is the value that decides all the
same: at both ends of the plain form the power of ten is not rounded down, and the value that it is
rounded to is written as the power.

A text without exponent is a numeral of the language, so a scan finds the number in it.  In any
other text the exponent, or infinity, is a word.

Main results:

- Theorem `Binary64.IsThreshold.le_writtenExponent_iff`: the first digit tells whether a value
  reaches a power of ten.
- Theorem `Binary64.isPositional_iff`: the numbers that are written without exponent.
- Theorem `isNumberText_format_iff`: the numbers that a scan finds in what is written for them.
-/

namespace Lox.Binary64

open Numeral (weight weight_pos)

/-! ## The first digit -/

/-- A decimal reaches a power of ten exactly if its first digit stands that far in front. -/
theorem pow_le_decimal_iff {digits : ℕ} (h : 0 < digits) (exponent k : ℤ) :
    (10 : ℚ) ^ k ≤ digits * 10 ^ exponent ↔ k ≤ exponent + digitCount digits - 1 := by
  have some_digit : 0 < digitCount digits := Nat.length_toDigits_pos
  have split : (10 : ℚ) ^ k = 10 ^ (k - exponent) * 10 ^ exponent := by
    rw [← zpow_add₀ (by norm_num), sub_add_cancel]
  rw [split, mul_le_mul_iff_left₀ (by positivity)]
  rcases Int.lt_or_le 0 (k - exponent) with hpos | hneg
  · obtain ⟨places, hplaces⟩ := Int.eq_ofNat_of_zero_le hpos.le
    have longer : digitCount digits ≤ places ↔ digits < 10 ^ places :=
      Nat.length_toDigits_le_iff (by decide) (by omega)
    rw [hplaces, zpow_natCast]
    have cast : (10 : ℚ) ^ places ≤ digits ↔ 10 ^ places ≤ digits := by exact_mod_cast Iff.rfl
    rw [cast, ← not_lt, ← longer]
    omega
  · have small : (10 : ℚ) ^ (k - exponent) ≤ 1 := zpow_le_one_of_nonpos₀ (by norm_num) hneg
    have one : (1 : ℚ) ≤ digits := by exact_mod_cast h
    exact iff_of_true (small.trans one) (by omega)

/-- A power of ten, measured in units. -/
theorem inUnits_power (k : ℤ) :
    inUnits (weight 10 k.toNat) (weight 10 (-k).toNat) = 10 ^ k * unitsOfOne := by
  have decimal := inUnits_decimal 1 k
  rwa [Nat.one_mul, Nat.cast_one, one_mul] at decimal

/-- The rank that a power of ten is rounded to. -/
def powerRank (k : ℤ) : ℕ :=
  nearestRank (weight 10 k.toNat) (weight 10 (-k).toNat)

/-- A power of ten is not rounded down, and the value that it is rounded to is written as the
power. -/
structure IsThreshold (k : ℤ) : Prop where
  up : weight 10 k.toNat * unitsOfOne ≤ units (powerRank k) * weight 10 (-k).toNat
  written : shortest (powerRank k) = ⟨1, k⟩

section

variable {k : ℤ} {rank : ℕ}

/-- The values from a threshold on are those with its rank or a greater one. -/
theorem IsThreshold.powerRank_le_iff (h : IsThreshold k) :
    powerRank k ≤ rank ↔ (10 : ℚ) ^ k ≤ units rank / unitsOfOne := by
  have hden : 0 < weight 10 (-k).toNat := weight_pos (by decide) _
  rw [le_div_iff₀ unitsOfOne_pos, ← inUnits_power]
  constructor
  · intro hle
    have up : inUnits (weight 10 k.toNat) (weight 10 (-k).toNat) ≤ units (powerRank k) := by
      rw [inUnits, div_le_iff₀ (by exact_mod_cast hden)]
      exact_mod_cast h.up
    refine up.trans ?_
    exact_mod_cast units_strictMono.monotone hle
  · intro hle
    have ordered := nearestRank_mono hden (by decide) (hle.trans_eq (inUnits_units rank).symm)
    rwa [nearestRank_units] at ordered

/-- The values from a threshold on are those with a first digit that stands as far in front. -/
theorem IsThreshold.powerRank_le_iff_le_writtenExponent (h : IsThreshold k) (hpos : 0 < rank)
    (hrank : rank < rankLimit) : powerRank k ≤ rank ↔ k ≤ writtenExponent rank := by
  have nearest := nearestRank_of_readsBack (readsBack_shortest hpos hrank)
  have hden (exponent : ℤ) : 0 < weight 10 (-exponent).toNat := weight_pos (by decide) _
  have written := inUnits_decimal (shortest rank).digits (shortest rank).exponent
  have first := pow_le_decimal_iff (digits_shortest_pos hpos hrank) (shortest rank).exponent k
  rw [← mul_le_mul_iff_left₀ unitsOfOne_pos, ← inUnits_power, ← written] at first
  rw [writtenExponent, ← first]
  constructor
  · intro hle
    rcases hle.eq_or_lt with rfl | hlt
    · rw [h.written, Nat.one_mul]
    · -- a written decimal below the power would not be rounded to a greater value than the power
      by_contra hbelow
      have ordered := nearestRank_mono (hden _) (hden k) (not_le.1 hbelow).le
      rw [nearest] at ordered
      exact absurd hlt (not_lt.2 ordered)
  · intro hle
    have ordered := nearestRank_mono (hden k) (hden _) hle
    rwa [nearest] at ordered

/-- The first digit that is written for a value tells whether the value reaches a threshold. -/
theorem IsThreshold.le_writtenExponent_iff (h : IsThreshold k) (hpos : 0 < rank)
    (hrank : rank < rankLimit) :
    k ≤ writtenExponent rank ↔ (10 : ℚ) ^ k ≤ units rank / unitsOfOne := by
  rw [← h.powerRank_le_iff_le_writtenExponent hpos hrank, h.powerRank_le_iff]

end

/-- The least power of ten that is written without exponent is a threshold. -/
theorem isThreshold_least : IsThreshold (-4) where
  up := by decide +kernel
  written := by decide +kernel

/-- The least power of ten beyond those that are written without exponent is a threshold. -/
theorem isThreshold_beyond : IsThreshold 16 where
  up := by decide +kernel
  written := by decide +kernel

/-- Zero and the values between two powers of ten are written without exponent. -/
theorem isPositional_iff {rank : ℕ} (hrank : rank < rankLimit) :
    IsPositional rank ↔ (units rank / unitsOfOne : ℚ) = 0 ∨
      (10 : ℚ) ^ (-4 : ℤ) ≤ units rank / unitsOfOne ∧
        (units rank / unitsOfOne : ℚ) < 10 ^ (16 : ℤ) := by
  have hone := unitsOfOne_pos
  rcases Nat.eq_zero_or_pos rank with rfl | hpos
  · refine iff_of_true (.inl rfl) (.inl ?_)
    rw [units_zero, Nat.cast_zero, zero_div]
  · have nonzero : (units rank / unitsOfOne : ℚ) ≠ 0 := by
      have size : 0 < units rank := (Nat.zero_le _).trans_lt (units_strictMono hpos)
      exact (div_pos (by exact_mod_cast size) hone).ne'
    rw [IsPositional, or_iff_right hpos.ne', or_iff_right nonzero,
      isThreshold_least.le_writtenExponent_iff hpos hrank, ← not_le,
      isThreshold_beyond.le_writtenExponent_iff hpos hrank, not_le]

/-! ## Numerals among segments -/

namespace Parts

variable {parts : Parts}

/-- The number that a numeral starts with: everything but the exponent. -/
def segment (parts : Parts) : Segment :=
  .number parts.whole (if parts.fraction = [] then none else some parts.fraction)

/-- The number and the exponent make up the numeral. -/
theorem text_eq_segment (parts : Parts) : parts.text = parts.segment.text ++ parts.exponent := by
  unfold text segment
  split <;> simp [Segment.text]

/-- The number in front of an exponent is one. -/
theorem IsNumeral.wellFormed_segment (h : parts.IsNumeral) : parts.segment.WellFormed := by
  refine ⟨⟨h.whole_ne_nil, h.whole_isDigit⟩, ?_⟩
  intro places hplaces
  split at hplaces
  · cases hplaces
  · next hfraction =>
    cases hplaces
    exact ⟨hfraction, h.fraction_isDigit⟩

/-- The number ends in front of the exponent. -/
theorem IsNumeral.stops_segment (h : parts.IsNumeral) : parts.segment.Stops parts.exponent := by
  have hhead := h.head?_exponent
  unfold segment
  split
  · refine ⟨fun c hc => (hhead c hc).1, ?_⟩
    intro d back hpoint
    rw [hpoint] at hhead
    exact absurd rfl (hhead '.' rfl).2
  · exact fun c hc => (hhead c hc).1

/-- A numeral is a number, and an exponent if it has one. -/
theorem IsNumeral.segments_text (h : parts.IsNumeral) :
    segments parts.text = parts.segment :: segments parts.exponent := by
  rw [text_eq_segment]
  exact Segment.segments_append h.wellFormed_segment h.stops_segment

/-- An exponent starts with a word. -/
theorem IsNumeral.exists_segments_exponent (h : parts.IsNumeral) (hne : parts.exponent ≠ []) :
    ∃ rest, segments parts.exponent = .word ['e'] :: rest := by
  obtain ⟨sign, digits, hexponent, hsign, -⟩ := h.exponent.resolve_left hne
  have stops : (Segment.word ['e']).Stops (sign :: digits) := by
    intro c hc
    obtain rfl : sign = c := by simpa using hc
    rcases hsign with rfl | rfl <;> rfl
  have word : (Segment.word ['e']).WellFormed := ⟨'e', [], rfl, by decide, by simp⟩
  refine ⟨segments (sign :: digits), ?_⟩
  rw [hexponent]
  exact Segment.segments_append word stops

end Parts

end Lox.Binary64

namespace Lox

/-! ## Scanning what is written -/

/-- A scan of a text finds a number with the given value, and nothing else. -/
def IsNumberText (text : String) (value : Binary64) : Prop :=
  ∃ token line, scan text = ⟨[token, .eof line], []⟩ ∧ token.type = .number ∧
    token.literal = some (.number value)

section

variable {rank : Fin 0x7FF0000000000000}

/-- A finite number without a sign is written by its digits. -/
theorem format_finite : (Literal.number (.finite false rank)).format =
    String.ofList (Binary64.magnitudeText rank) := rfl

/-- A number that is written without exponent is found in its text. -/
theorem scan_format_of_isPositional (h : Binary64.IsPositional rank) :
    scan (Literal.number (.finite false rank)).format =
      ⟨[⟨.number, (Literal.number (.finite false rank)).format,
        some (.number (.finite false rank)), 1⟩, .eof 1], []⟩ := by
  obtain ⟨parts, hnumeral, htext, hexponent, -⟩ := Binary64.exists_parts_magnitudeText rank.isLt
  have written : (Literal.number (.finite false rank)).format =
      String.ofList parts.segment.text := by
    rw [format_finite, htext, parts.text_eq_segment, hexponent.2 h, List.append_nil]
  -- what is read back from the text is what the scan takes for its value
  have back := Binary64.ofText?_text (.inl rfl) (.finite false rank)
  rw [← Literal.format, written, String.toList_ofList] at back
  obtain ⟨digits, places⟩ := hnumeral.wellFormed_segment
  have read := Segment.ofText?_text_number _ digits.1 digits.2 fun more hmore =>
    (places more hmore).2
  have value := Option.some.inj (read.symm.trans back)
  have found := Segment.scan_number hnumeral.wellFormed_segment
  rwa [value, ← Binary64.Parts.segment, ← written] at found

/-- A number that is written with an exponent makes up more than one token. -/
theorem tokens_ne_of_not_isPositional (h : ¬Binary64.IsPositional rank) (token : Token)
    (line : Int) : (scan (Literal.number (.finite false rank)).format).tokens ≠
      [token, .eof line] := by
  obtain ⟨parts, hnumeral, htext, hexponent, -⟩ := Binary64.exists_parts_magnitudeText rank.isLt
  obtain ⟨rest, hrest⟩ := hnumeral.exists_segments_exponent (mt hexponent.1 h)
  have two : ∃ first second, tokensFrom 1 (parts.segment :: .word ['e'] :: rest) =
      first :: second :: tokensFrom 1 rest := ⟨_, _, rfl⟩
  obtain ⟨first, second, htwo⟩ := two
  rw [format_finite, htext, scan, String.toList_ofList, hnumeral.segments_text, hrest, htwo]
  intro hscan
  exact tokensFrom_ne_nil 1 rest (List.cons.inj (List.cons.inj hscan).2).2

end

/-- A finite number lies in the range of the plain form, or is zero. -/
def Binary64.IsModerate (v : Binary64) : Prop :=
  ∃ x, v.toRat? = some x ∧ (x = 0 ∨ (10 : ℚ) ^ (-4 : ℤ) ≤ x ∧ x < (10 : ℚ) ^ (16 : ℤ))

/-- A finite number without a sign is moderate exactly if it is written without exponent. -/
theorem Binary64.isModerate_finite_iff (rank : Fin 0x7FF0000000000000) :
    (Binary64.finite false rank).IsModerate ↔ Binary64.IsPositional rank := by
  rw [isPositional_iff rank.isLt, IsModerate, toRat?_finite]
  simp

section

variable {v : Binary64}

/-- A moderate number is found in its text. -/
theorem scan_format_of_isModerate (hsign : v.isNegative = false) (h : v.IsModerate) :
    scan (Literal.number v).format =
      ⟨[⟨.number, (Literal.number v).format, some (.number v), 1⟩, .eof 1], []⟩ := by
  cases v with
  | nan =>
      obtain ⟨x, hx, -⟩ := h
      cases hx
  | infinite negative =>
      obtain ⟨x, hx, -⟩ := h
      cases hx
  | finite negative rank =>
      obtain rfl : negative = false := hsign
      exact scan_format_of_isPositional ((Binary64.isModerate_finite_iff rank).1 h)

/-- The text of any other number is no single number. -/
theorem type_ne_of_not_isModerate (hsign : v.isNegative = false) (hnan : v ≠ .nan)
    (h : ¬v.IsModerate) {token : Token} {line : Int}
    (hscan : (scan (Literal.number v).format).tokens = [token, .eof line]) :
    token.type ≠ .number := by
  cases v with
  | nan => exact absurd rfl hnan
  | infinite negative =>
      obtain rfl : negative = false := hsign
      have word : (scan (Literal.number (.infinite false)).format).tokens =
          [⟨.identifier, "inf", none, 1⟩, .eof 1] := by decide +kernel
      rw [word] at hscan
      obtain rfl := (List.cons.inj hscan).1
      simp
  | finite negative rank =>
      obtain rfl : negative = false := hsign
      have extreme := mt (Binary64.isModerate_finite_iff rank).2 h
      exact absurd hscan (tokens_ne_of_not_isPositional extreme token line)

end

/-- A scan finds a number of another scan in what is written for it exactly if the number is
moderate, and then the same is written for what is found.  What is written for any other number is
no single number. -/
theorem isNumberText_format_iff {source : String} {token : Token} {v : Binary64}
    (h : token ∈ (scan source).tokens) (htype : token.type = .number)
    (hliteral : token.literal = some (.number v)) :
    (IsNumberText (Literal.number v).format v ↔ v.IsModerate) ∧
      (v.IsModerate → ∀ found ∈ (scan (Literal.number v).format).tokens,
        ∀ literal ∈ found.literal, literal.format = (Literal.number v).format) ∧
      (¬v.IsModerate → ∀ found line,
        (scan (Literal.number v).format).tokens = [found, .eof line] → found.type ≠ .number) := by
  obtain ⟨whole, fraction, -, -, hnumber⟩ := exists_number_of_mem_scan h htype
  obtain rfl : Segment.numberValue whole fraction = v := by
    rw [hnumber] at hliteral
    simpa using hliteral
  have hsign : (Segment.numberValue whole fraction).isNegative = false :=
    Binary64.isNegative_ofRatio _ _ _
  have hnan : Segment.numberValue whole fraction ≠ .nan := Binary64.ofRatio_ne_nan _ _ _
  generalize Segment.numberValue whole fraction = v at hsign hnan
  refine ⟨⟨?_, fun hmoderate => ?_⟩, fun hmoderate => ?_, fun hnot found line hscan => ?_⟩
  · rintro ⟨found, line, hscan, hfound, -⟩
    by_contra hnot
    exact type_ne_of_not_isModerate hsign hnan hnot (congrArg Scan.tokens hscan) hfound
  · exact ⟨_, _, scan_format_of_isModerate hsign hmoderate, rfl, rfl⟩
  · rw [scan_format_of_isModerate hsign hmoderate]
    simp [Token.eof]
  · exact type_ne_of_not_isModerate hsign hnan hnot hscan

/-- The greatest number that is written without exponent is found in its text. -/
theorem isNumberText_format_greatest :
    IsNumberText "9999999999999998.0" (.ofRatio false 9999999999999998 1) := by
  have found : (⟨.number, "9999999999999998.9",
      some (.number (.ofRatio false 9999999999999998 1)), 1⟩ : Token) ∈
        (scan "x=9999999999999998.9;").tokens := by decide +kernel
  have moderate : (Binary64.ofRatio false 9999999999999998 1).IsModerate :=
    ⟨9999999999999998, by decide +kernel, .inr ⟨by norm_num, by norm_num⟩⟩
  have written : (Literal.number (.ofRatio false 9999999999999998 1)).format =
      "9999999999999998.0" := by decide +kernel
  have both := (isNumberText_format_iff found rfl rfl).1.2 moderate
  rwa [written] at both

end Lox
