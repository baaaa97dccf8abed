import Lox.Proofs.Lexeme
import Mathlib.Data.List.Flatten

/-!
# Layouts

A layout sets lexemes one behind the other with blanks and newlines between them, or nothing at all.
Scanning its text gives the lexemes back unless two of them fuse, or three: a number without a
fraction, a point and a number are one number.  Since the lexemes of every text can be laid out, no
text needs more between two lexemes than one blank.

Main results:

- Theorem `Spaced.stops_iff`: the segment of a lexeme stops exactly if the lexeme does not merge
  with the ones behind it.
- Theorem `tokensFrom_spell`: a layout in which nothing merges is scanned as it is meant.
- Theorem `not_merging_of_lexemes`: if scanning a layout gives its lexemes back, nothing in it
  merges.
- Theorem `Layout.scan_text`: scanning a layout, and laying out a scan.
-/

namespace Lox

/-! ## Gaps -/

/-- A character between lexemes. -/
def IsBlank (c : Char) : Prop :=
  c = ' ' ∨ c = '\t' ∨ c = '\r' ∨ c = '\n'

instance : DecidablePred IsBlank :=
  fun c => inferInstanceAs (Decidable (c = ' ' ∨ c = '\t' ∨ c = '\r' ∨ c = '\n'))

/-- A text that separates lexemes, possibly empty. -/
def IsGap (text : List Char) : Prop :=
  ∀ c ∈ text, IsBlank c

/-- A blank goes on no word. -/
theorem IsBlank.isWordPart_eq_false {c : Char} (h : IsBlank c) : isWordPart c = false := by
  rcases h with rfl | rfl | rfl | rfl <;> rfl

/-- A blank is no digit. -/
theorem IsBlank.isDigit_eq_false {c : Char} (h : IsBlank c) : c.isDigit = false := by
  rcases h with rfl | rfl | rfl | rfl <;> rfl

/-- No lexeme starts with a blank. -/
theorem IsLexeme.not_isBlank {text : List Char} (h : IsLexeme text) {c : Char}
    (hc : c ∈ text.head?) : ¬IsBlank c := by
  intro hblank
  rcases h with h | h | h | h
  · cases h with
    | operator op => cases op <;> cases hc <;> revert hblank <;> decide
  · rcases h.isWordStart_head with ⟨d, hd, hstart⟩
    obtain rfl := Option.mem_unique hc hd
    have hpart := hblank.isWordPart_eq_false
    simp [isWordPart, hstart] at hpart
  · rcases h.isDigit_head with ⟨d, hd, hdigit⟩
    obtain rfl := Option.mem_unique hc hd
    simp [hblank.isDigit_eq_false] at hdigit
  · cases h with
    | string body _ =>
        cases hc
        revert hblank
        decide

/-- A blank in front of a text is a segment of its own. -/
private theorem segments_blank {c : Char} (h : IsBlank c) (text : List Char) :
    segments (c :: text) = (if c = '\n' then .newline else .blank c) :: segments text := by
  by_cases hnewline : c = '\n'
  · subst hnewline
    have hwf : Segment.newline.WellFormed := trivial
    have stops : Segment.newline.Stops text := trivial
    exact Segment.segments_append hwf stops
  · rw [if_neg hnewline]
    have hwf : (Segment.blank c).WellFormed := by
      rcases h with rfl | rfl | rfl | rfl
      · rfl
      · rfl
      · rfl
      · exact absurd rfl hnewline
    have stops : (Segment.blank c).Stops text := trivial
    exact Segment.segments_append hwf stops

/-- A gap in front of a text only counts lines. -/
theorem tokensFrom_gap {gap : List Char} (h : IsGap gap) (line : Nat) (text : List Char) :
    tokensFrom line (segments (gap ++ text)) = tokensFrom (line + newlines gap) (segments text) ∧
      reportsFrom line (segments (gap ++ text)) =
        reportsFrom (line + newlines gap) (segments text) := by
  induction gap generalizing line with
  | nil => exact ⟨rfl, rfl⟩
  | cons c gap ih =>
      obtain ⟨htokens, hreports⟩ := ih (fun d hd => h d (List.mem_cons_of_mem c hd))
        (line + newlines [c])
      have lines : line + newlines (c :: gap) = line + newlines [c] + newlines gap := by
        rw [Nat.add_assoc, ← newlines_append]
        rfl
      rw [List.cons_append, segments_blank (h c List.mem_cons_self), lines, ← htokens, ← hreports]
      by_cases hnewline : c = '\n'
      · subst hnewline
        exact ⟨rfl, rfl⟩
      · have none_new : newlines [c] = 0 := by simp [newlines, hnewline]
        rw [if_neg hnewline, none_new]
        exact ⟨rfl, rfl⟩

/-- A gap in front of a text holds no token. -/
theorem tokenSegments_gap {gap : List Char} (h : IsGap gap) (text : List Char) :
    tokenSegments (gap ++ text) = tokenSegments text := by
  induction gap with
  | nil => rfl
  | cons c gap ih =>
      rw [List.cons_append, tokenSegments, segments_blank (h c List.mem_cons_self),
        List.filter_cons_of_neg]
      · exact ih fun d hd => h d (List.mem_cons_of_mem c hd)
      · by_cases hnewline : c = '\n'
        · rw [if_pos hnewline]
          decide
        · rw [if_neg hnewline]
          simp [Segment.isToken]

/-! ## Layouts -/

/-- A lexeme and what stands between it and the next one. -/
structure Spaced where
  lexeme : List Char
  gap : List Char
  isLexeme : IsLexeme lexeme
  isGap : IsGap gap

/-- The text of some lexemes with what stands behind each. -/
def spell (items : List Spaced) : List Char :=
  items.flatMap fun item => item.lexeme ++ item.gap

/-- The first lexeme, its gap, and the text of the others. -/
theorem spell_cons (x : Spaced) (rest : List Spaced) :
    spell (x :: rest) = x.lexeme ++ (x.gap ++ spell rest) := by
  rw [spell, List.flatMap_cons, List.append_assoc]
  rfl

/-- Lexemes in order, with what stands in front of the first and behind each. -/
structure Layout where
  lead : List Char
  items : List Spaced
  isGap_lead : IsGap lead

namespace Layout

/-- The text of a layout. -/
def text (layout : Layout) : List Char :=
  layout.lead ++ spell layout.items

/-- The text of a layout in front of its lexeme at a place. -/
def before (layout : Layout) (place : Nat) : List Char :=
  layout.lead ++ spell (layout.items.take place)

end Layout

/-! ## Lexemes that merge -/

/-- Two lexemes, one directly behind the other, are read as something else. -/
def Fuse (x y : List Char) : Prop :=
  (InClass .word x ∧ (InClass .word y ∨ InClass .number y)) ∨
    (InClass .number x ∧ InClass .number y) ∨
    ((x = ['!'] ∨ x = ['='] ∨ x = ['<'] ∨ x = ['>']) ∧ (y = ['='] ∨ y = ['=', '='])) ∨
    (x = ['/'] ∧ y = ['/'])

/-- A lexeme merges with the ones behind it: it fuses with the next one, or it is a number without a
fraction and directly behind it stand a point and a number. -/
def Spaced.Merges (x : Spaced) : List Spaced → Prop
  | [] => False
  | y :: rest =>
      x.gap = [] ∧
        (Fuse x.lexeme y.lexeme ∨
          (Segment.IsDigits x.lexeme ∧ y.lexeme = ['.'] ∧ y.gap = [] ∧
            ∃ z ∈ rest.head?, InClass .number z.lexeme))

/-- Somewhere a lexeme merges with the ones behind it. -/
def Merging (items : List Spaced) : Prop :=
  ∃ x rest, x :: rest <:+ items ∧ x.Merges rest

/-- What merges in a list merges at its front or behind it. -/
theorem merging_cons_iff {x : Spaced} {rest : List Spaced} :
    Merging (x :: rest) ↔ x.Merges rest ∨ Merging rest := by
  constructor
  · rintro ⟨y, back, hback, hmerges⟩
    rcases List.suffix_cons_iff.1 hback with hsame | hlater
    · cases hsame
      exact Or.inl hmerges
    · exact Or.inr ⟨y, back, hlater, hmerges⟩
  · rintro (hmerges | ⟨y, back, hback, hmerges⟩)
    · exact ⟨x, rest, List.suffix_refl _, hmerges⟩
    · exact ⟨y, back, hback.trans (List.suffix_cons x rest), hmerges⟩

/-! ## Where a lexeme stops -/

namespace Segment

variable {part : Segment}

/-- The segment of a lexeme stops in front of a blank. -/
theorem stops_of_isBlank (htoken : part.isToken = true) {c : Char} (hc : IsBlank c)
    (rest : List Char) : part.Stops (c :: rest) := by
  have hdigit := hc.isDigit_eq_false
  have apart {d : Char} (hd : ¬IsBlank d) : c ≠ d := by
    rintro rfl
    exact hd hc
  cases part with
  | operator op =>
      refine ⟨fun _ => ?_, fun _ => ?_⟩
      · simpa using apart (show ¬IsBlank '/' by decide)
      · simpa using apart (show ¬IsBlank '=' by decide)
  | string body => trivial
  | number whole fraction =>
      cases fraction with
      | none =>
          refine ⟨by simpa using hdigit, ?_⟩
          rintro d back hpoint
          cases hpoint
          exact absurd rfl (apart (show ¬IsBlank '.' by decide))
      | some places => simpa [Stops] using hdigit
  | word word => simpa [Stops] using hc.isWordPart_eq_false
  | _ => cases htoken

/-- No digit stands behind a number that stops. -/
theorem isDigit_eq_false_of_stops (hwf : part.WellFormed) (h : InClass .number part.text)
    {rest : List Char} (hstop : part.Stops rest) : ∀ c ∈ rest.head?, c.isDigit = false := by
  have hclass := class?_of_inClass hwf h
  cases part <;> cases hclass
  next whole fraction =>
    cases fraction with
    | none => exact hstop.1
    | some places => exact hstop

/-- No character of words stands behind a word that stops. -/
theorem isWordPart_eq_false_of_stops (hwf : part.WellFormed) (h : InClass .word part.text)
    {rest : List Char} (hstop : part.Stops rest) : ∀ c ∈ rest.head?, isWordPart c = false := by
  have hclass := class?_of_inClass hwf h
  cases part <;> cases hclass
  exact hstop

/-- What does not stand behind an operator that stops. -/
theorem head?_ne_of_stops (hwf : part.WellFormed) (op : Operator) (h : part.text = op.text)
    {rest : List Char} (hstop : part.Stops rest) :
    (op = .slash → rest.head? ≠ some '/') ∧ (op.withEqual?.isSome → rest.head? ≠ some '=') := by
  have hop : (operator op).WellFormed := trivial
  rw [eq_of_text_eq hwf hop h] at hstop
  exact hstop

/-- The segment of a lexeme that stops does not fuse with the lexeme behind it. -/
theorem not_fuse_of_stops (hwf : part.WellFormed) {y behind : List Char} (hy : y ≠ [])
    (hstop : part.Stops (y ++ behind)) : ¬Fuse part.text y := by
  have hhead : (y ++ behind).head? = y.head? := List.head?_append_of_ne_nil y hy
  rintro (⟨hx, hword | hnumber⟩ | ⟨hx, hnumber⟩ | ⟨hx, hequal⟩ | ⟨hx, rfl⟩)
  · rcases hword.isWordStart_head with ⟨c, hc, hstart⟩
    rw [← hhead] at hc
    have refused := isWordPart_eq_false_of_stops hwf hx hstop c hc
    simp [isWordPart, hstart] at refused
  · rcases hnumber.isDigit_head with ⟨c, hc, hdigit⟩
    rw [← hhead] at hc
    have refused := isWordPart_eq_false_of_stops hwf hx hstop c hc
    simp [isWordPart, hdigit] at refused
  · rcases hnumber.isDigit_head with ⟨c, hc, hdigit⟩
    rw [← hhead] at hc
    have refused := isDigit_eq_false_of_stops hwf hx hstop c hc
    simp [hdigit] at refused
  · have head_equal : (y ++ behind).head? = some '=' := by
      rw [hhead]
      rcases hequal with rfl | rfl <;> rfl
    rcases hx with hx | hx | hx | hx
    · exact (head?_ne_of_stops hwf .bang hx hstop).2 rfl head_equal
    · exact (head?_ne_of_stops hwf .equal hx hstop).2 rfl head_equal
    · exact (head?_ne_of_stops hwf .less hx hstop).2 rfl head_equal
    · exact (head?_ne_of_stops hwf .greater hx hstop).2 rfl head_equal
  · exact (head?_ne_of_stops hwf .slash hx hstop).1 rfl rfl

end Segment

/-- The text of a layout starts with its first lexeme. -/
theorem head?_spell_cons (x : Spaced) (rest : List Spaced) :
    (spell (x :: rest)).head? = x.lexeme.head? := by
  rw [spell_cons, List.head?_append_of_ne_nil _ x.isLexeme.ne_nil]

namespace Spaced

variable {x : Spaced} {rest : List Spaced} {part : Segment}

/-- The segment of a lexeme that stops does not merge with the lexemes behind it. -/
theorem not_merges_of_stops (hwf : part.WellFormed) (htext : part.text = x.lexeme)
    (hstop : part.Stops (x.gap ++ spell rest)) : ¬x.Merges rest := by
  cases rest with
  | nil => exact id
  | cons y rest =>
      rintro ⟨hgap, hfuse | ⟨hdigits, hpoint, hygap, z, hz, hnumber⟩⟩
      · rw [hgap, List.nil_append, spell_cons] at hstop
        rw [← htext] at hfuse
        exact Segment.not_fuse_of_stops hwf y.isLexeme.ne_nil hstop hfuse
      · -- the digits, the point and the number are one number
        obtain rfl : part = .number x.lexeme none :=
          Segment.eq_of_text_eq hwf ⟨hdigits, by simp⟩ htext
        rcases List.head?_eq_some_iff.1 hz with ⟨more, rfl⟩
        rcases hnumber.isDigit_head with ⟨d, hd, hdigit⟩
        rw [← head?_spell_cons z more] at hd
        rcases List.head?_eq_some_iff.1 hd with ⟨back, hback⟩
        rw [hgap, spell_cons, hpoint, hygap, hback] at hstop
        have refused := hstop.2 d back rfl
        simp [hdigit] at refused

/-- A point and a digit at the front of a layout are a point and a number. -/
private theorem point_number_of_spell {y : Spaced} {d : Char} {back : List Char}
    (hback : spell (y :: rest) = '.' :: d :: back) (hdigit : d.isDigit = true) :
    y.lexeme = ['.'] ∧ y.gap = [] ∧ ∃ z ∈ rest.head?, InClass .number z.lexeme := by
  have hhead := head?_spell_cons y rest
  rw [hback] at hhead
  have hpoint := y.isLexeme.eq_point hhead.symm
  have hbehind : y.gap ++ spell rest = d :: back := by
    rw [spell_cons, hpoint] at hback
    exact (List.cons.inj hback).2
  cases hgap : y.gap with
  | cons c gap =>
      rw [hgap] at hbehind
      obtain rfl := (List.cons.inj hbehind).1
      have hblank := y.isGap c (by simp [hgap])
      simp [hblank.isDigit_eq_false] at hdigit
  | nil =>
      refine ⟨hpoint, rfl, ?_⟩
      rw [hgap, List.nil_append] at hbehind
      cases rest with
      | nil => cases hbehind
      | cons z more =>
          have hz := head?_spell_cons z more
          rw [hbehind] at hz
          exact ⟨z, rfl, z.isLexeme.inClass_of_isDigit hz.symm hdigit⟩

/-- A lexeme that does not merge with the lexemes behind it stops in front of them. -/
theorem stops_of_not_merges (hwf : part.WellFormed) (htoken : part.isToken = true)
    (htext : part.text = x.lexeme) (h : ¬x.Merges rest) : part.Stops (x.gap ++ spell rest) := by
  cases hgap : x.gap with
  | cons c gap => exact Segment.stops_of_isBlank htoken (x.isGap c (by simp [hgap])) _
  | nil =>
      cases rest with
      | nil => exact part.stops_nil
      | cons y rest =>
          have hhead := head?_spell_cons y rest
          have apart : ¬Fuse part.text y.lexeme := by
            intro hfuse
            rw [htext] at hfuse
            exact h ⟨hgap, Or.inl hfuse⟩
          -- a number goes on with no digit that starts the next lexeme
          have digits (hx : InClass .number part.text) :
              ∀ c ∈ (spell (y :: rest)).head?, c.isDigit = false := by
            intro c hc
            by_contra hdigit
            rw [hhead] at hc
            have hnumber := y.isLexeme.inClass_of_isDigit hc (by simpa using hdigit)
            exact apart (Or.inr (Or.inl ⟨hx, hnumber⟩))
          rw [List.nil_append]
          cases part with
          | operator op =>
              constructor
              · rintro rfl hslash
                have hy := y.isLexeme.eq_slash (hhead ▸ hslash)
                exact apart (Or.inr (Or.inr (Or.inr ⟨rfl, hy⟩)))
              · intro hwide hequal
                have hy := y.isLexeme.eq_equal (hhead ▸ hequal)
                have hx := Operator.text_of_isSome_withEqual? hwide
                exact apart (Or.inr (Or.inr (Or.inl ⟨hx, hy⟩)))
          | string body => trivial
          | word word =>
              intro c hc
              by_contra hpart
              rw [hhead] at hc
              have hy := y.isLexeme.inClass_of_isWordPart hc (by simpa using hpart)
              exact apart (Or.inl ⟨Segment.inClass_text hwf rfl, hy⟩)
          | number whole fraction =>
              cases fraction with
              | some places => exact digits (Segment.inClass_text hwf rfl)
              | none =>
                  refine ⟨digits (Segment.inClass_text hwf rfl), ?_⟩
                  intro d back hback
                  by_contra hdigit
                  obtain ⟨hpoint, hygap, hnumber⟩ :=
                    point_number_of_spell hback (by simpa using hdigit)
                  have hdigits : Segment.IsDigits x.lexeme := htext ▸ hwf.1
                  exact h ⟨hgap, Or.inr ⟨hdigits, hpoint, hygap, hnumber⟩⟩
          | _ => cases htoken

/-- The segment of a lexeme stops exactly if the lexeme does not merge with the ones behind it. -/
theorem stops_iff (hwf : part.WellFormed) (htoken : part.isToken = true)
    (htext : part.text = x.lexeme) : part.Stops (x.gap ++ spell rest) ↔ ¬x.Merges rest :=
  ⟨not_merges_of_stops hwf htext, stops_of_not_merges hwf htoken htext⟩

end Spaced

/-! ## Scanning a layout -/

variable {items : List Spaced}

/-- The first lexeme of a layout stands for its token if it does not merge with the ones behind it,
and the others are scanned on the line behind it. -/
theorem tokensFrom_spell_cons {x : Spaced} {rest : List Spaced} (h : ¬x.Merges rest) (line : Nat) :
    ∃ token, Yields line x.lexeme (some token) none ∧
      tokensFrom line (segments (spell (x :: rest))) =
        token :: tokensFrom (line + newlines (x.lexeme ++ x.gap)) (segments (spell rest)) ∧
      reportsFrom line (segments (spell (x :: rest))) =
        reportsFrom (line + newlines (x.lexeme ++ x.gap)) (segments (spell rest)) := by
  rcases isLexeme_iff.1 x.isLexeme with ⟨part, hwf, htoken, htext⟩
  have hstop := (Spaced.stops_iff hwf htoken htext).2 h
  have htok : (part.token? line).isSome = true := (part.isSome_token? line).trans htoken
  rcases Option.isSome_iff_exists.1 htok with ⟨token, htok⟩
  have hreport := part.report?_of_isToken htoken line
  have yields := Segment.yields hwf line
  rw [htok, hreport, htext] at yields
  have lines : line + newlines (x.lexeme ++ x.gap) = line + part.lineBreaks + newlines x.gap := by
    rw [newlines_append, ← htext, Segment.newlines_text hwf, Nat.add_assoc]
  obtain ⟨gapTokens, gapReports⟩ := tokensFrom_gap x.isGap (line + part.lineBreaks) (spell rest)
  refine ⟨token, yields, ?_, ?_⟩
  · rw [spell_cons, ← htext, Segment.segments_append hwf hstop, tokensFrom, gapTokens, htok, htext,
      lines]
    rfl
  · rw [spell_cons, ← htext, Segment.segments_append hwf hstop, reportsFrom, gapReports, hreport,
      htext, lines]
    rfl

/-- A layout in which nothing merges is scanned as it is meant. -/
theorem tokensFrom_spell (h : ¬Merging items) (line : Nat) :
    ∃ tokens,
      tokensFrom line (segments (spell items)) =
        tokens ++ [.eof ((line + newlines (spell items) : Nat) : Int)] ∧
      tokens.length = items.length ∧
      (∀ place x, items[place]? = some x → ∃ token, tokens[place]? = some token ∧
        Yields (line + newlines (spell (items.take place))) x.lexeme (some token) none) ∧
      reportsFrom line (segments (spell items)) = [] := by
  induction items generalizing line with
  | nil =>
      refine ⟨[], ?_, rfl, by simp, ?_⟩
      · simp [spell, segments, tokensFrom, newlines_nil]
      · simp [spell, segments, reportsFrom]
  | cons x rest ih =>
      rw [merging_cons_iff, not_or] at h
      rcases tokensFrom_spell_cons h.1 line with ⟨token, yields, stepTokens, stepReports⟩
      obtain ⟨tokens, htokens, hlength, hyields, hreports⟩ :=
        ih h.2 (line + newlines (x.lexeme ++ x.gap))
      have lines (others : List Spaced) : line + newlines (spell (x :: others)) =
          line + newlines (x.lexeme ++ x.gap) + newlines (spell others) := by
        rw [spell_cons, ← List.append_assoc, newlines_append, Nat.add_assoc]
      refine ⟨token :: tokens, ?_, by rw [List.length_cons, hlength, List.length_cons], ?_, ?_⟩
      · rw [stepTokens, htokens, lines, List.cons_append]
      · intro place y hy
        cases place with
        | zero =>
            cases hy
            exact ⟨token, rfl, yields⟩
        | succ place =>
            rcases hyields place y hy with ⟨found, hfound, later⟩
            refine ⟨found, hfound, ?_⟩
            rw [List.take_succ_cons, lines]
            exact later
      · rw [stepReports, hreports]

/-! ## Lexemes given back -/

/-- The characters of a text that are no blanks, counted. -/
def solid (text : List Char) : Nat :=
  text.countP fun c => !decide (IsBlank c)

theorem solid_append (front back : List Char) : solid (front ++ back) = solid front + solid back :=
  List.countP_append

/-- Nothing in a gap is solid. -/
theorem solid_gap {gap : List Char} (h : IsGap gap) : solid gap = 0 := by
  rw [solid, List.countP_eq_zero]
  intro c hc
  simp [h c hc]

/-- What is solid in a layout is in its lexemes. -/
theorem solid_spell (items : List Spaced) :
    solid (spell items) = solid (items.map Spaced.lexeme).flatten := by
  induction items with
  | nil => rfl
  | cons x rest ih =>
      rw [List.map_cons, List.flatten_cons, solid_append, ← ih, spell_cons, solid_append,
        solid_append, solid_gap x.isGap, Nat.zero_add]

/-- The lexemes of a text are in it, in order. -/
theorem flatten_tokenSegments_sublist (text : List Char) :
    ((tokenSegments text).map Segment.text).flatten.Sublist text := by
  have kept : (tokenSegments text).Sublist (segments text) := List.filter_sublist
  have spelled := (kept.map Segment.text).flatten
  rwa [← List.flatMap_def, ← List.flatMap_def, text_segments] at spelled

/-- The segment of a lexeme that stops is the first one that stands for a token. -/
private theorem tokenSegments_spell_cons {part : Segment} {x : Spaced} {rest : List Spaced}
    (hwf : part.WellFormed) (htoken : part.isToken = true) (htext : part.text = x.lexeme)
    (hstop : part.Stops (x.gap ++ spell rest)) :
    tokenSegments (spell (x :: rest)) = part :: tokenSegments (spell rest) := by
  rw [spell_cons, ← htext, tokenSegments, Segment.segments_append hwf hstop,
    List.filter_cons_of_pos htoken, ← tokenSegments, tokenSegments_gap x.isGap]

/-- A segment in front of a text is given back only if it stops, unless solid characters are
lost. -/
private theorem stops_of_given_back {part : Segment} {behind : List Char} (hwf : part.WellFormed)
    (hsolid : ∀ c ∈ part.text.head?, ¬IsBlank c) {lexemes : List (List Char)}
    (h : (tokenSegments (part.text ++ behind)).map Segment.text = part.text :: lexemes)
    (hkept : solid (part.text :: lexemes).flatten = solid (part.text ++ behind)) :
    part.Stops behind := by
  rcases List.exists_cons_of_ne_nil (Segment.text_ne_nil hwf) with ⟨c, rest, hcons⟩
  have hc : ¬IsBlank c := hsolid c (by simp [hcons])
  have hfront : part.text ++ behind = c :: (rest ++ behind) := by rw [hcons, List.cons_append]
  have whole := Segment.text_cut c (rest ++ behind)
  rcases Segment.cut_valid c (rest ++ behind) with ⟨hfirst, hleft⟩
  rw [hfront, tokenSegments, segments] at h
  generalize Segment.cut c (rest ++ behind) = cut at *
  rcases cut with ⟨first, left⟩
  dsimp only at whole hfirst hleft h
  by_cases htoken : first.isToken = true
  · rw [List.filter_cons_of_pos htoken] at h
    have htext : first.text = part.text := (List.cons.inj h).1
    obtain rfl := Segment.eq_of_text_eq hfirst hwf htext
    rw [← hfront] at whole
    rwa [← List.append_cancel_left whole]
  · -- without a token for it the first character is lost
    exfalso
    rw [List.filter_cons_of_neg htoken, ← tokenSegments] at h
    have kept : solid (part.text :: lexemes).flatten ≤ solid left := by
      rw [← h]
      exact (flatten_tokenSegments_sublist left).countP_le
    rcases List.exists_cons_of_ne_nil (Segment.text_ne_nil hfirst) with ⟨d, more, hmore⟩
    have hfirstSolid : 0 < solid first.text := by
      rw [hmore] at whole ⊢
      obtain rfl : d = c := (List.cons.inj whole).1
      simp [solid, hc]
    have parts := congrArg solid whole
    rw [solid_append, ← hfront, ← hkept] at parts
    omega

/-- If the lexemes of a layout are given back, nothing in it merges. -/
theorem not_merging_of_lexemes
    (h : (tokenSegments (spell items)).map Segment.text = items.map Spaced.lexeme) :
    ¬Merging items := by
  induction items with
  | nil =>
      rintro ⟨x, rest, hsuffix, -⟩
      simp at hsuffix
  | cons x rest ih =>
      rcases isLexeme_iff.1 x.isLexeme with ⟨part, hwf, htoken, htext⟩
      have hstop : part.Stops (x.gap ++ spell rest) := by
        have hkept := (solid_spell (x :: rest)).symm
        rw [spell_cons, List.map_cons, ← htext] at h hkept
        refine stops_of_given_back hwf ?_ h hkept
        rw [htext]
        intro c hc
        exact x.isLexeme.not_isBlank hc
      rw [tokenSegments_spell_cons hwf htoken htext hstop] at h
      rw [merging_cons_iff, not_or, ← Spaced.stops_iff hwf htoken htext]
      exact ⟨hstop, ih (List.cons.inj h).2⟩

/-- If nothing in a layout merges, its lexemes are given back. -/
theorem lexemes_of_not_merging (h : ¬Merging items) :
    (tokenSegments (spell items)).map Segment.text = items.map Spaced.lexeme := by
  induction items with
  | nil => simp [spell, tokenSegments, segments]
  | cons x rest ih =>
      rcases isLexeme_iff.1 x.isLexeme with ⟨part, hwf, htoken, htext⟩
      rw [merging_cons_iff, not_or, ← Spaced.stops_iff hwf htoken htext] at h
      rw [tokenSegments_spell_cons hwf htoken htext h.1, List.map_cons, List.map_cons, htext,
        ih h.2]

namespace Layout

/-- If nothing merges in a layout, its text is scanned without a report into one token for each
lexeme, on the line where the lexeme starts, and the closing token. -/
theorem scan_of_not_merging {layout : Layout} (h : ¬Merging layout.items) :
    (scan (String.ofList layout.text)).diagnostics = [] ∧
      ∃ tokens,
        (scan (String.ofList layout.text)).tokens =
          tokens ++ [.eof ((1 + newlines layout.text : Nat) : Int)] ∧
        tokens.length = layout.items.length ∧
        ∀ place x, layout.items[place]? = some x → ∃ token, tokens[place]? = some token ∧
          Yields (1 + newlines (layout.before place)) x.lexeme (some token) none := by
  obtain ⟨leadTokens, leadReports⟩ :=
    tokensFrom_gap layout.isGap_lead 1 (spell layout.items)
  obtain ⟨tokens, htokens, hlength, hyields, hreports⟩ :=
    tokensFrom_spell h (1 + newlines layout.lead)
  have hscan : scan (String.ofList layout.text) =
      ⟨tokensFrom 1 (segments layout.text), reportsFrom 1 (segments layout.text)⟩ := by
    rw [scan, String.toList_ofList]
  rw [hscan, text, leadTokens, leadReports, htokens]
  refine ⟨hreports, tokens, ?_, hlength, ?_⟩
  · rw [newlines_append, Nat.add_assoc]
  · intro place x hx
    rw [before, newlines_append, ← Nat.add_assoc]
    exact hyields place x hx

/-- Scanning a layout gives its lexemes back exactly if nothing in it merges. -/
theorem lexemes_scan_iff (layout : Layout) :
    (scan (String.ofList layout.text)).lexemes =
        layout.items.map (fun item => String.ofList item.lexeme) ↔
      ¬Merging layout.items := by
  rw [lexemes_scan, String.toList_ofList, text, tokenSegments_gap layout.isGap_lead]
  constructor
  · intro h
    apply not_merging_of_lexemes
    have spelled := congrArg (List.map String.toList) h
    simpa [Function.comp_def] using spelled
  · intro h
    have spelled := congrArg (List.map String.ofList) (lexemes_of_not_merging h)
    simpa [Function.comp_def] using spelled

/-- Nothing merges in a layout with something in every gap between two lexemes. -/
theorem not_merging_of_gaps {items : List Spaced}
    (h : ∀ item ∈ items.dropLast, item.gap ≠ []) : ¬Merging items := by
  rintro ⟨x, rest, ⟨front, hfront⟩, hmerges⟩
  cases rest with
  | nil => exact hmerges
  | cons y rest =>
      apply h x _ hmerges.1
      rw [← hfront, List.dropLast_append_of_ne_nil (List.cons_ne_nil _ _), List.dropLast_cons_cons]
      simp

/-- Scanning the text of a layout gives its lexemes back exactly if nothing in it merges, and then
nothing is reported, and each lexeme stands for its token on the line where it starts.  The tokens
of every text are lexemes, and however they are laid out with something between any two, scanning
gives the same tokens, apart from the lines. -/
theorem scan_text :
    (∀ layout : Layout,
      ((scan (String.ofList layout.text)).lexemes =
          layout.items.map (fun item => String.ofList item.lexeme) ↔
        ¬Merging layout.items) ∧
      (¬Merging layout.items →
        (scan (String.ofList layout.text)).diagnostics = [] ∧
        ∃ tokens,
          (scan (String.ofList layout.text)).tokens =
            tokens ++ [.eof ((1 + newlines layout.text : Nat) : Int)] ∧
          tokens.length = layout.items.length ∧
          ∀ place x, layout.items[place]? = some x → ∃ token, tokens[place]? = some token ∧
            Yields (1 + newlines (layout.before place)) x.lexeme (some token) none)) ∧
    ∀ source : String, ∃ tokens,
      (scan source).tokens = tokens ++ [.eof ((1 + newlines source.toList : Nat) : Int)] ∧
      (∀ token ∈ tokens, token.type ≠ .eof ∧ IsLexeme token.lexeme.toList) ∧
      ∀ layout : Layout,
        layout.items.map Spaced.lexeme = tokens.map (fun token => token.lexeme.toList) →
        (∀ item ∈ layout.items.dropLast, item.gap ≠ []) →
        (scan (String.ofList layout.text)).diagnostics = [] ∧
        (scan (String.ofList layout.text)).tokens.map Token.content =
          (scan source).tokens.map Token.content := by
  constructor
  · intro layout
    exact ⟨layout.lexemes_scan_iff, scan_of_not_merging⟩
  · intro source
    rcases exists_lexemes source with ⟨tokens, htokens, hlexemes⟩
    refine ⟨tokens, htokens, hlexemes, ?_⟩
    intro layout hlayout hgaps
    have apart := not_merging_of_gaps hgaps
    refine ⟨(scan_of_not_merging apart).1, ?_⟩
    apply contents_eq_of_lexemes_eq
    rw [(lexemes_scan_iff layout).2 apart]
    have kept : tokens.filter (fun token => decide (token.type ≠ .eof)) = tokens := by
      rw [List.filter_eq_self]
      intro token htoken
      simpa using (hlexemes token htoken).1
    have spelled := congrArg (List.map String.ofList) hlayout
    simp only [List.map_map, Function.comp_def, String.ofList_toList] at spelled
    rw [Scan.lexemes, htokens, List.filter_append, kept]
    simpa [Token.eof] using spelled

end Layout

end Lox
