import Lox.Proofs.BinaryFormat
import Lox.Proofs.Digits
import Lox.Proofs.Edits

/-!
# What numerals are worth

A numeral denotes an exact rational number, however long it is, and the value of its token is that
number correctly rounded.  So the order of numerals is kept by their values, and zeros that do not
matter to the rational number do not matter to the value, while the rest of the text does not notice
them.

Main results:

- Theorem `isRounding_numberValue`: the value of a numeral is its rational number correctly rounded.
- Theorem `exists_segments_of_tokens`: a token of a scan divides the segments of the text.
- Theorem `Fits.replace_number`: a number fits wherever another number of the same form stands.
- Theorem `isRounding_of_scan`: the number tokens of a scan are correctly rounded.
-/

namespace Lox

/-! ## Numerals -/

/-- The rational number that a numeral denotes: digits, or digits and places behind a point. -/
def Numeral.rational (numeral : List Char) : ℚ :=
  let whole := numeral.takeWhile (· != '.')
  let places := (numeral.dropWhile (· != '.')).drop 1
  value 10 whole + value 10 places / 10 ^ places.length

/-- A numeral with more zeros in front of it and behind it. -/
def Numeral.withZeros (leading trailing : ℕ) (numeral : List Char) : List Char :=
  List.replicate leading '0' ++ numeral ++ List.replicate trailing '0'

namespace Segment

variable {whole : List Char} {fraction : Option (List Char)}

/-- What a number denotes is the quotient that its value is rounded from. -/
theorem rational_text_number (h : (number whole fraction).WellFormed) :
    Numeral.rational (number whole fraction).text =
      (Numeral.value 10 (whole ++ fraction.getD []) : ℚ) /
        Numeral.weight 10 (fraction.getD []).length := by
  have inside : ∀ c ∈ whole, (c != '.') = true := by
    intro c hc
    have digit := h.1.2 c hc
    refine bne_iff_ne.2 ?_
    rintro rfl
    cases digit
  have split (places : List Char) (hplaces : ∀ c ∈ places.head?, (c != '.') = false) :
      Numeral.rational (whole ++ places) =
        Numeral.value 10 whole +
          Numeral.value 10 (places.drop 1) / 10 ^ (places.drop 1).length := by
    obtain ⟨taken, left⟩ := span_eq inside hplaces
    simp only [Numeral.rational, taken, left]
  cases fraction with
  | none =>
      have whole_only := split [] (by simp)
      rw [List.append_nil] at whole_only
      simpa [text] using whole_only
  | some places =>
      have pointed := split ('.' :: places) (by simp)
      have positive : (Numeral.weight 10 places.length : ℚ) ≠ 0 := by
        exact_mod_cast (Numeral.weight_pos (by decide) places.length).ne'
      rw [text, pointed, Option.getD_some, Numeral.value_append, List.drop_one, List.tail_cons,
        Nat.cast_add, Nat.cast_mul, add_div, mul_div_cancel_right₀ _ positive,
        Binary64.cast_weight, Nat.cast_ofNat]

/-- The value of a numeral is its rational number correctly rounded. -/
theorem isRounding_numberValue (h : (number whole fraction).WellFormed) :
    Binary64.IsRounding (Numeral.rational (number whole fraction).text)
      (numberValue whole fraction) := by
  rw [rational_text_number h]
  exact Binary64.isRounding_ofRatio (Numeral.weight_pos (by decide) _)

/-- A greater numeral has no lesser value. -/
theorem numberValue_le {whole' : List Char} {fraction' : Option (List Char)}
    (h : (number whole fraction).WellFormed) (h' : (number whole' fraction').WellFormed)
    (hle : Numeral.rational (number whole fraction).text ≤
      Numeral.rational (number whole' fraction').text) :
    Binary64.Le (numberValue whole fraction) (numberValue whole' fraction') := by
  rw [rational_text_number h, rational_text_number h'] at hle
  exact Binary64.ofRatio_le (Numeral.weight_pos (by decide) _) (Numeral.weight_pos (by decide) _)
    hle

/-- Zeros in front of the digits and behind the places of a number make a number with the same
value. -/
theorem exists_number_withZeros (h : (number whole fraction).WellFormed) (leading : ℕ)
    {trailing : ℕ} (htrailing : trailing = 0 ∨ '.' ∈ (number whole fraction).text) :
    ∃ whole' fraction', (number whole' fraction').WellFormed ∧
      (number whole' fraction').text =
        Numeral.withZeros leading trailing (number whole fraction).text ∧
      fraction'.isSome = fraction.isSome ∧
      numberValue whole' fraction' = numberValue whole fraction := by
  have zeros (count : ℕ) : ∀ c ∈ List.replicate count '0', c.isDigit = true := by
    intro c hc
    rw [List.eq_of_mem_replicate hc]
    rfl
  have front : IsDigits (List.replicate leading '0' ++ whole) := by
    refine ⟨by simp [h.1.1], ?_⟩
    intro c hc
    rcases List.mem_append.1 hc with hc | hc
    · exact zeros leading c hc
    · exact h.1.2 c hc
  have hten : 0 < 10 := by decide
  cases fraction with
  | none =>
      have none_behind : trailing = 0 := by
        refine htrailing.resolve_right fun hpoint => ?_
        cases h.1.2 '.' hpoint
      subst none_behind
      refine ⟨_, none, ⟨front, by simp⟩, by simp [text, Numeral.withZeros], rfl, ?_⟩
      refine Binary64.ofRatio_congr false Nat.one_pos Nat.one_pos ?_
      simp [Numeral.value_zeros]
  | some places =>
      refine ⟨_, some (places ++ List.replicate trailing '0'), ⟨front, ?_⟩,
        by simp [text, Numeral.withZeros], rfl, ?_⟩
      · rintro more ⟨rfl⟩
        refine ⟨by simp [(h.2 places rfl).1], ?_⟩
        intro c hc
        rcases List.mem_append.1 hc with hc | hc
        · exact (h.2 places rfl).2 c hc
        · exact zeros trailing c hc
      · refine Binary64.ofRatio_congr false (Numeral.weight_pos hten _)
          (Numeral.weight_pos hten _) ?_
        simp only [Option.getD_some]
        rw [List.append_assoc, Numeral.value_zeros, ← List.append_assoc,
          Numeral.value_append_zeros, List.length_append, List.length_replicate,
          Numeral.weight_add]
        ring

/-! ## Numbers among segments -/

variable {part : Segment}

/-- A digit may take the place of a digit. -/
theorem Stops.digit_instead {behind : List Char} {c d : Char} (hc : c.isDigit = true)
    (hd : d.isDigit = true) {back : List Char} (h : part.Stops (behind ++ c :: back))
    (other : List Char) : part.Stops (behind ++ d :: other) := by
  have differs {e : Char} (he : e.isDigit = false) : d ≠ e := by
    rintro rfl
    rw [hd] at he
    cases he
  rcases behind with _ | ⟨e, _ | ⟨f, more⟩⟩
  · cases part with
    | operator op => simp [Stops, differs (e := '/') rfl, differs (e := '=') rfl]
    | comment body =>
        rw [h c rfl] at hc
        cases hc
    | number whole fraction =>
        cases fraction with
        | none =>
            have stop := h.1 c rfl
            rw [hc] at stop
            cases stop
        | some places =>
            have stop := h c rfl
            rw [hc] at stop
            cases stop
    | word word =>
        have stop := h c rfl
        rw [isWordPart, hc, Bool.or_true] at stop
        cases stop
    | unterminated body => cases h
    | _ => trivial
  · cases part with
    | number whole fraction =>
        cases fraction with
        | some places => exact h
        | none =>
            refine ⟨h.1, ?_⟩
            rintro f more hpoint
            obtain rfl := (List.cons.inj hpoint).1
            have stop := h.2 c back rfl
            rw [hc] at stop
            cases stop
    | unterminated body => cases h
    | _ => exact h
  · rw [← stops_take_two] at h ⊢
    exact h

/-- Where a number stops depends on whether it has a fraction, and on nothing else of it. -/
theorem stops_number_congr {whole' : List Char} {fraction' : Option (List Char)}
    (h : fraction'.isSome = fraction.isSome) (behind : List Char) :
    (number whole' fraction').Stops behind ↔ (number whole fraction).Stops behind := by
  cases fraction <;> cases fraction' <;> first | rfl | cases h

/-- A number starts with a digit. -/
theorem exists_text_number (h : (number whole fraction).WellFormed) :
    ∃ c rest, (number whole fraction).text = c :: rest ∧ c.isDigit = true := by
  obtain ⟨c, digits, rfl⟩ := List.exists_cons_of_ne_nil h.1.1
  have digit := h.1.2 c List.mem_cons_self
  cases fraction with
  | none => exact ⟨c, _, rfl, digit⟩
  | some places => exact ⟨c, _, rfl, digit⟩

/-- A scan of a number finds the number and nothing else. -/
theorem scan_number (h : (number whole fraction).WellFormed) :
    scan (String.ofList (number whole fraction).text) =
      ⟨[⟨.number, String.ofList (number whole fraction).text,
        some (.number (numberValue whole fraction)), 1⟩, .eof 1], []⟩ := by
  rw [scan, String.toList_ofList, segments_text h]
  rfl

/-- Only a number stands for a number token. -/
theorem exists_number_of_token? {line : Int} {token : Token} (h : part.token? line = some token)
    (htype : token.type = .number) : ∃ whole fraction, part = number whole fraction := by
  cases part with
  | number whole fraction => exact ⟨whole, fraction, rfl⟩
  | word word =>
      cases h
      unfold TokenType.ofWord at htype
      split at htype <;> cases htype
  | _ => cases h <;> cases htype

end Segment

/-- A number fits wherever another number stands, if both have a fraction or neither has. -/
theorem Fits.replace_number {front back : List Segment} {whole whole' : List Char}
    {fraction fraction' : Option (List Char)}
    (h : Fits (front ++ .number whole fraction :: back))
    (hwf : (Segment.number whole' fraction').WellFormed)
    (hsome : fraction'.isSome = fraction.isSome) :
    Fits (front ++ .number whole' fraction' :: back) := by
  obtain ⟨hold, hstop, hback⟩ := h.right
  refine h.replace ⟨hwf, (Segment.stops_number_congr hsome _).2 hstop, hback⟩ ?_
  intro part behind hpart
  obtain ⟨c, rest, hc, hdigit⟩ := Segment.exists_text_number hold
  obtain ⟨d, rest', hd, hdigit'⟩ := Segment.exists_text_number hwf
  rw [List.flatMap_cons, hc, List.cons_append] at hpart
  rw [List.flatMap_cons, hd, List.cons_append]
  exact hpart.digit_instead hdigit hdigit' _

/-! ## Tokens among segments -/

/-- A token of some segments is that of one of them; the tokens before it are those of the segments
in front of that one, and the tokens after it are those of the segments behind it. -/
theorem exists_segments_of_tokens {line : ℕ} {parts : List Segment} {before after : List Token}
    {token : Token} (h : tokensFrom line parts = before ++ token :: after)
    (htype : token.type ≠ .eof) :
    ∃ front part back, parts = front ++ part :: back ∧
      (tokensFrom line front).dropLast = before ∧
      part.token? (lineBehind line front) = some token ∧
      tokensFrom (lineBehind line front + part.lineBreaks) back = after := by
  induction parts generalizing line before with
  | nil =>
      rcases List.append_eq_singleton_iff.1 h.symm with ⟨-, htoken⟩ | ⟨-, htoken⟩
      · obtain rfl := (List.cons.inj htoken).1
        exact absurd rfl htype
      · cases htoken
  | cons part rest ih =>
      cases hpart : part.token? line with
      | none =>
          rw [tokensFrom, hpart] at h
          obtain ⟨front, found, back, rfl, hbefore, hfound, hafter⟩ := ih h
          refine ⟨part :: front, found, back, rfl, ?_, hfound, hafter⟩
          rw [tokensFrom, hpart]
          exact hbefore
      | some first =>
          rw [tokensFrom, hpart] at h
          cases before with
          | nil =>
              obtain ⟨rfl, hafter⟩ := List.cons.inj h
              exact ⟨[], part, rest, rfl, rfl, hpart, hafter⟩
          | cons other before =>
              obtain ⟨rfl, hrest⟩ := List.cons.inj h
              obtain ⟨front, found, back, rfl, hbefore, hfound, hafter⟩ := ih hrest
              refine ⟨part :: front, found, back, rfl, ?_, hfound, hafter⟩
              rw [tokensFrom, hpart, List.dropLast_append_of_ne_nil (tokensFrom_ne_nil _ _),
                hbefore]
              rfl

/-- A number token of a scan is that of a numeral. -/
theorem exists_number_of_mem_scan {source : String} {token : Token}
    (h : token ∈ (scan source).tokens) (htype : token.type = .number) :
    ∃ whole fraction, (Segment.number whole fraction).WellFormed ∧
      token.lexeme = String.ofList (Segment.number whole fraction).text ∧
      token.literal = some (.number (Segment.numberValue whole fraction)) := by
  rcases token?_or_eof_of_mem_scan h with ⟨part, hwf, line, hpart⟩ | ⟨line, rfl⟩
  · obtain ⟨whole, fraction, rfl⟩ := Segment.exists_number_of_token? hpart htype
    cases hpart
    exact ⟨whole, fraction, hwf, rfl, rfl⟩
  · cases htype

/-- Only number tokens have numbers for their values. -/
theorem type_of_literal_number {source : String} {token : Token} {v : Binary64}
    (h : token ∈ (scan source).tokens) (hliteral : token.literal = some (.number v)) :
    token.type = .number := by
  rcases token?_or_eof_of_mem_scan h with ⟨part, -, line, hpart⟩ | ⟨line, rfl⟩
  · cases part with
    | number whole fraction =>
        cases hpart
        rfl
    | _ => cases hpart <;> cases hliteral
  · cases hliteral

/-- Zeros in front of the digits and behind the places of a number in a text change the lexeme of
the number and nothing else of the scan. -/
theorem exists_scan_withZeros {source : String} {before after : List Token} {token : Token}
    (h : (scan source).tokens = before ++ token :: after) (htype : token.type = .number) :
    ∃ front back : List Char, source.toList = front ++ token.lexeme.toList ++ back ∧
      ∀ leading trailing : ℕ, trailing = 0 ∨ '.' ∈ token.lexeme.toList →
        let lexeme := Numeral.withZeros leading trailing token.lexeme.toList
        scan (String.ofList (front ++ lexeme ++ back)) =
          ⟨before ++ { token with lexeme := String.ofList lexeme } :: after,
            (scan source).diagnostics⟩ := by
  have hnot : token.type ≠ .eof := by simp [htype]
  obtain ⟨front, part, back, hparts, hbefore, hpart, hafter⟩ := exists_segments_of_tokens h hnot
  obtain ⟨whole, fraction, rfl⟩ := Segment.exists_number_of_token? hpart htype
  cases hpart
  have fits := fits_segments source.toList
  rw [hparts] at fits
  refine ⟨front.flatMap Segment.text, back.flatMap Segment.text, ?_, ?_⟩
  · rw [← text_segments source.toList, hparts]
    simp
  · intro leading trailing htrailing
    rw [String.toList_ofList] at htrailing ⊢
    obtain ⟨whole', fraction', hwf, htext, hsome, hvalue⟩ :=
      Segment.exists_number_withZeros fits.right.1 leading htrailing
    have edited := segments_flatMap (fits.replace_number hwf hsome)
    rw [List.flatMap_append, List.flatMap_cons, htext, ← List.append_assoc] at edited
    simp only [scan, String.toList_ofList, edited, hparts, tokensFrom_append, reportsFrom_append,
      hbefore]
    rw [← hafter, ← htext, ← hvalue]
    rfl

/-- The number tokens of a scan are correctly rounded.  So their values keep the order of their
numerals, and zeros that do not matter to a numeral change its lexeme and nothing else. -/
theorem isRounding_of_scan {source : String} {before after : List Token} {token : Token}
    (h : (scan source).tokens = before ++ token :: after) (htype : token.type = .number) :
    ∃ value : Binary64, token.literal = some (.number value) ∧
      Binary64.IsRounding (Numeral.rational token.lexeme.toList) value ∧
      (value = .infinite false ↔ Binary64.overflow ≤ Numeral.rational token.lexeme.toList) ∧
      value ≠ .nan ∧ value.isNegative = false ∧
      (∀ (other : String) (token' : Token) (value' : Binary64), token' ∈ (scan other).tokens →
        token'.type = .number → token'.literal = some (.number value') →
        Numeral.rational token.lexeme.toList ≤ Numeral.rational token'.lexeme.toList →
        value.Le value') ∧
      ∃ front back : List Char, source.toList = front ++ token.lexeme.toList ++ back ∧
        ∀ leading trailing : ℕ, trailing = 0 ∨ '.' ∈ token.lexeme.toList →
          let lexeme := Numeral.withZeros leading trailing token.lexeme.toList
          scan (String.ofList (front ++ lexeme ++ back)) =
            ⟨before ++ { token with lexeme := String.ofList lexeme } :: after,
              (scan source).diagnostics⟩ := by
  have found : token ∈ (scan source).tokens := by simp [h]
  obtain ⟨whole, fraction, hwf, hlexeme, hliteral⟩ := exists_number_of_mem_scan found htype
  have rounding := Segment.isRounding_numberValue hwf
  have numeral : token.lexeme.toList = (Segment.number whole fraction).text := by
    rw [hlexeme, String.toList_ofList]
  refine ⟨_, hliteral, numeral ▸ rounding, numeral ▸ rounding.eq_infinite_iff,
    Binary64.ofRatio_ne_nan _ _ _, Binary64.isNegative_ofRatio _ _ _, ?_,
    exists_scan_withZeros h htype⟩
  intro other token' value' hother htype' hliteral' hle
  obtain ⟨whole', fraction', hwf', hlexeme', hfound'⟩ := exists_number_of_mem_scan hother htype'
  obtain rfl : Segment.numberValue whole' fraction' = value' := by
    rw [hfound'] at hliteral'
    simpa using hliteral'
  rw [numeral, hlexeme', String.toList_ofList] at hle
  exact Segment.numberValue_le hwf hwf' hle

/-- The number halfway between two values of the format becomes the even one. -/
theorem isRounding_of_scan_halfway :
    Binary64.IsRounding 9007199254740993 (.ofRatio false 9007199254740992 1) := by
  have tokens : (scan "x=9007199254740993;").tokens =
      [⟨.ofWord ['x'], "x", none, 1⟩, ⟨.operator .equal, "=", none, 1⟩] ++
        ⟨.number, "9007199254740993", some (.number (.ofRatio false 9007199254740992 1)), 1⟩ ::
        [⟨.operator .semicolon, ";", none, 1⟩, .eof 1] := by decide +kernel
  obtain ⟨value, hvalue, rounding, -⟩ := isRounding_of_scan tokens rfl
  obtain rfl : Binary64.ofRatio false 9007199254740992 1 = value := by simpa using hvalue
  have numeral : Numeral.rational "9007199254740993".toList = 9007199254740993 := by
    decide +kernel
  rwa [numeral] at rounding

end Lox
