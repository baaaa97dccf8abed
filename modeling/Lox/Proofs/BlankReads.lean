import Lox.Proofs.Seams
import Lox.Session

/-!
# Reads that end a session

A session ends on a read of white space only.  Scanning such a read finds no lexeme, so no token is
lost with it, but the white space of the Unicode character database goes beyond the blanks of the
language: every other white space character of the read would have been reported.  A read that ends
a session hides nothing exactly if it is made of blanks of the language and newlines.

Main results:

- Theorem `Segment.isUnexpected_of_isBlankChar`: white space that is no blank of the language starts
  nothing.
- Theorem `segments_of_all_isBlankChar`: white space is cut character by character.
- Theorem `scan_of_unanswered`: what a read that ends a session holds.
- Theorem `exists_unanswered_report`: some reads that end a session hide a fault.
-/

namespace Lox

/-! ## Characters -/

/-- No white space is a visible character of ASCII. -/
theorem toNat_of_isBlankChar {c : Char} (h : isBlankChar c = true) :
    c.toNat ≤ 0x20 ∨ 0x7F < c.toNat := by
  simp only [isBlankChar, CharRanges.contains, blankRanges, List.any_cons, List.any_nil,
    Bool.or_false, Bool.or_eq_true, Bool.and_eq_true, decide_eq_true_eq] at h
  omega

/-- The characters of words and numbers are visible characters of ASCII. -/
theorem toNat_of_isWordPart {c : Char} (h : isWordPart c = true) :
    0x20 < c.toNat ∧ c.toNat ≤ 0x7F := by
  delta isWordPart isWordStart Char.isAlpha Char.isUpper Char.isLower Char.isDigit at h
  simp only [Bool.or_eq_true, Bool.and_eq_true, decide_eq_true_eq, beq_iff_eq,
    UInt32.le_iff_toNat_le, ge_iff_le] at h
  change (((65 ≤ c.toNat ∧ c.toNat ≤ 90) ∨ (97 ≤ c.toNat ∧ c.toNat ≤ 122)) ∨ c = '_') ∨
    (48 ≤ c.toNat ∧ c.toNat ≤ 57) at h
  rcases h with (h | rfl) | h
  · omega
  · decide
  · omega

namespace Segment

/-- White space that is no blank of the language starts nothing. -/
theorem isUnexpected_of_isBlankChar {c : Char} (hspace : isBlankChar c = true)
    (hblank : ¬IsBlank c) : IsUnexpected c := by
  have hidden := toNat_of_isBlankChar hspace
  have hword : isWordPart c = false := by
    by_contra hpart
    have visible := toNat_of_isWordPart (Bool.not_eq_false _ ▸ hpart)
    omega
  have hstarts : Operator.starts.all (fun d => !isBlankChar d) = true := by decide
  rw [isWordPart, Bool.or_eq_false_iff] at hword
  refine ⟨?_, ?_, ?_, ?_, hword.2, hword.1⟩
  · rw [← Option.not_isSome_iff_eq_none, Operator.ofChar?_isSome_iff]
    intro hstart
    simpa [hspace] using List.all_eq_true.1 hstarts c hstart
  · exact Bool.eq_false_iff.2 fun hseparator => hblank (isBlank_of_isSeparator hseparator)
  · rintro rfl
    exact hblank (by decide)
  · rintro rfl
    cases hspace

/-- The segment of a white space character. -/
def ofSpace (c : Char) : Segment :=
  if c = '\n' then newline
  else if IsBlank c then blank c
  else unexpected c

/-- The segment of a white space character has the shape of its kind and stops anywhere. -/
theorem ofSpace_valid {c : Char} (h : isBlankChar c = true) :
    (ofSpace c).WellFormed ∧ (ofSpace c).text = [c] ∧ ∀ behind, (ofSpace c).Stops behind := by
  unfold ofSpace
  split
  · next hnewline => exact ⟨trivial, by rw [hnewline]; rfl, fun _ => trivial⟩
  · next hnewline =>
    split
    · next hblank =>
      refine ⟨?_, rfl, fun _ => trivial⟩
      rcases hblank with rfl | rfl | rfl | rfl
      · rfl
      · rfl
      · rfl
      · exact absurd rfl hnewline
    · next hblank => exact ⟨isUnexpected_of_isBlankChar h hblank, rfl, fun _ => trivial⟩

/-- White space holds no lexeme. -/
theorem token?_ofSpace (c : Char) (line : Int) : (ofSpace c).token? line = none := by
  unfold ofSpace
  split
  · rfl
  · split <;> rfl

/-- White space is reported unless it is a blank of the language. -/
theorem report?_ofSpace (c : Char) (line : Int) :
    (ofSpace c).report? line =
      if IsBlank c then none else some (.ofError line .unexpectedCharacter) := by
  unfold ofSpace
  split
  · next hnewline =>
    subst hnewline
    rfl
  · split
    · rfl
    · rfl

/-- White space counts its newlines. -/
theorem lineBreaks_ofSpace (c : Char) : (ofSpace c).lineBreaks = newlines [c] := by
  unfold ofSpace
  split
  · next hnewline =>
    subst hnewline
    rfl
  · next hnewline =>
    have none_new : newlines [c] = 0 := by simp [newlines, hnewline]
    rw [none_new]
    split <;> rfl

end Segment

/-! ## Texts -/

/-- White space is cut character by character. -/
theorem segments_of_all_isBlankChar {text : List Char}
    (h : ∀ c ∈ text, isBlankChar c = true) : segments text = text.map Segment.ofSpace := by
  induction text with
  | nil => rw [segments, List.map_nil]
  | cons c rest ih =>
      obtain ⟨hwf, htext, hstop⟩ := Segment.ofSpace_valid (h c List.mem_cons_self)
      have cut := Segment.segments_append hwf (hstop rest)
      rw [htext, List.singleton_append] at cut
      rw [cut, ih fun d hd => h d (List.mem_cons_of_mem c hd), List.map_cons]

/-- White space holds no token but the closing one. -/
theorem tokensFrom_map_ofSpace (line : Nat) (text : List Char) :
    tokensFrom line (text.map Segment.ofSpace) = [.eof ((line + newlines text : Nat) : Int)] := by
  induction text generalizing line with
  | nil => rfl
  | cons c rest ih =>
      rw [List.map_cons, tokensFrom, Segment.token?_ofSpace, ih, Segment.lineBreaks_ofSpace,
        Nat.add_assoc, ← newlines_append]
      rfl

/-- The report on a white space character behind a text, if it is no blank of the language. -/
def reportOnSpace? (front : List Char) (c : Char) : Option Diagnostic :=
  if IsBlank c then none
  else some (.ofError ((1 + newlines front : Nat) : Int) .unexpectedCharacter)

/-- The reports on the characters of a text of white space, each by what stands in front of it. -/
def reportsOnSpace (text : List Char) : List Diagnostic :=
  text.zipIdx.filterMap fun entry => reportOnSpace? (text.take entry.2) entry.1

/-- White space behind a text is reported character by character. -/
theorem reportsFrom_map_ofSpace (front text : List Char) :
    reportsFrom (1 + newlines front) (text.map Segment.ofSpace) =
      (text.zipIdx front.length).filterMap fun entry =>
        reportOnSpace? ((front ++ text).take entry.2) entry.1 := by
  induction text generalizing front with
  | nil => rfl
  | cons c rest ih =>
      have later := ih (front ++ [c])
      rw [newlines_append, List.append_assoc, List.singleton_append, List.length_append,
        List.length_singleton] at later
      have here : (Segment.ofSpace c).report? ((1 + newlines front : Nat) : Int) =
          reportOnSpace? ((front ++ c :: rest).take front.length) c := by
        rw [Segment.report?_ofSpace, List.take_left']
        · rfl
        · rfl
      rw [List.map_cons, reportsFrom, here, Segment.lineBreaks_ofSpace, Nat.add_assoc, later,
        List.zipIdx_cons, List.filterMap_cons]
      cases reportOnSpace? ((front ++ c :: rest).take front.length) c with
      | none => rfl
      | some report => rfl

/-- Nothing in white space is reported exactly if it is a gap between lexemes. -/
theorem reportsOnSpace_eq_nil_iff {text : List Char} : reportsOnSpace text = [] ↔ IsGap text := by
  have reported {front : List Char} {c : Char} : reportOnSpace? front c = none ↔ IsBlank c := by
    unfold reportOnSpace?
    split
    · next hblank => exact iff_of_true rfl hblank
    · next hblank => exact iff_of_false (Option.some_ne_none _) hblank
  simp only [reportsOnSpace, List.filterMap_eq_nil_iff, reported, IsGap]
  constructor
  · intro h c hc
    obtain ⟨place, hplace, rfl⟩ := List.getElem_of_mem hc
    have entry : (text[place], place) ∈ text.zipIdx :=
      List.mk_mem_zipIdx_iff_getElem?.2 (List.getElem?_eq_getElem hplace)
    exact h _ entry
  · intro h entry hentry
    exact h entry.1 (List.fst_mem_of_mem_zipIdx hentry)

/-- Scanning white space finds nothing but the characters that are no blanks of the language. -/
theorem scan_of_isBlank {text : String} (h : isBlank text = true) :
    (scan text).tokens = [.eof ((1 + newlines text.toList : Nat) : Int)] ∧
      (scan text).diagnostics = reportsOnSpace text.toList := by
  have cut := segments_of_all_isBlankChar (List.all_eq_true.1 h)
  simp only [scan, cut]
  exact ⟨tokensFrom_map_ofSpace 1 text.toList, reportsFrom_map_ofSpace [] text.toList⟩

/-! ## Reads -/

/-- A session answers every read but a blank one. -/
theorem SessionSettings.answer?_eq_none_iff {settings : SessionSettings} {line : String} :
    settings.answer? line = none ↔ isBlank line = true := by
  unfold answer?
  split
  · next hblank => exact iff_of_true rfl hblank
  · next hblank => exact iff_of_false (Option.some_ne_none _) hblank

/-- The unit of source in a blank read is blank, and a gap exactly if the read is one. -/
theorem isBlank_unitOfLine {line : String} (h : isBlank line = true) :
    isBlank (unitOfLine line) = true ∧
      (IsGap (unitOfLine line).toList ↔ IsGap line.toList) := by
  obtain ⟨ends, hline, hends⟩ :=
    exists_stripTrailing (fun c => c == '\r' || c == '\n') line.toList
  have hunit : line.toList = (unitOfLine line).toList ++ ends := by
    rw [unitOfLine, String.toList_ofList]
    exact hline
  have hgap : IsGap ends := by
    intro c hc
    have hends := hends c hc
    simp only [Bool.or_eq_true, beq_iff_eq] at hends
    exact Or.inr (Or.inr hends)
  constructor
  · rw [isBlank, hunit, List.all_append, Bool.and_eq_true] at h
    exact h.1
  · rw [hunit]
    constructor
    · intro hfront c hc
      rcases List.mem_append.1 hc with hc | hc
      · exact hfront c hc
      · exact hgap c hc
    · exact fun hall c hc => hall c (List.mem_append_left ends hc)

/-- A read that a session does not answer ends it, with the reads behind left unread.  Scanning the
unit of source in such a read finds no token but the closing one, and reports each character of it
that is no blank of the language, in order and on its line.  So the read hides nothing exactly if it
is a gap between lexemes. -/
theorem scan_of_unanswered {settings : SessionSettings} {line : String}
    (unanswered : settings.answer? line = none) (ending : Ending) (rest : List String) :
    session settings ending (line :: rest) = ⟨.output settings.prompt, rest.length⟩ ∧
      (scan (unitOfLine line)).tokens =
        [.eof ((1 + newlines (unitOfLine line).toList : Nat) : Int)] ∧
      (scan (unitOfLine line)).diagnostics = reportsOnSpace (unitOfLine line).toList ∧
      ((scan (unitOfLine line)).diagnostics = [] ↔ IsGap line.toList) := by
  have hblank := SessionSettings.answer?_eq_none_iff.1 unanswered
  obtain ⟨hunit, hgap⟩ := isBlank_unitOfLine hblank
  obtain ⟨htokens, hreports⟩ := scan_of_isBlank hunit
  refine ⟨session_of_blank settings ending line rest hblank, htokens, hreports, ?_⟩
  rw [hreports, reportsOnSpace_eq_nil_iff, hgap]

/-- A form feed and a no-break space among blanks, on two lines. -/
theorem scan_of_unanswered_form_feed :
    let settings : SessionSettings := ⟨.text, "> ", .plain⟩
    let line := " \x0c\n\t\u00a0\r\n"
    settings.answer? line = none ∧
      session settings .endOfInput [line, "1"] = ⟨.output "> ", 1⟩ ∧
      (scan (unitOfLine line)).tokens = [.eof 2] ∧
      (scan (unitOfLine line)).diagnostics =
        [⟨1, "Unexpected character."⟩, ⟨2, "Unexpected character."⟩] ∧
      ((scan (unitOfLine line)).diagnostics = [] ↔ IsGap line.toList) := by
  intro settings line
  have unanswered : settings.answer? line = none := by decide +kernel
  obtain ⟨hsession, htokens, hreports, hnothing⟩ :=
    scan_of_unanswered unanswered .endOfInput ["1"]
  refine ⟨unanswered, hsession, ?_, ?_, hnothing⟩
  · rw [htokens]
    decide +kernel
  · rw [hreports]
    decide +kernel

/-- Some reads that end a session hide a fault. -/
theorem exists_unanswered_report :
    ¬∀ (settings : SessionSettings) (line : String), line ≠ "" → settings.answer? line = none →
      (∃ last : Int, (scan (unitOfLine line)).tokens = [.eof last]) ∧
        (scan (unitOfLine line)).diagnostics = [] := by
  intro h
  have unanswered : SessionSettings.answer? ⟨.text, "> ", .plain⟩ "\x0b\n" = none := by
    decide +kernel
  have hidden := (h _ _ (by decide) unanswered).2
  have report : (scan (unitOfLine "\x0b\n")).diagnostics = [⟨1, "Unexpected character."⟩] := by
    decide +kernel
  rw [report] at hidden
  cases hidden

end Lox
