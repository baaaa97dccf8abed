import Lox.Proofs.Layout

/-!
# Seams

A newline outside strings is a seam of a text: no segment reaches over it and no segment in front of
it looks behind it, so the two sides are cut and scanned as if each stood alone.  At its end a text
has slack: separators put there start no lexeme and change none.

Main results:

- Theorem `Fits.append`: segments are put in front of others if each still stops where it stopped.
- Theorem `segments_append_newline`: a text without an open string is cut up to a newline as it is
  cut alone.
- Theorem `scan_insert_separators`: separators between two segments change nothing.
- Theorems `tokensFrom_onLine` and `reportsFrom_onLine`: what is found on a single line is found
  alike on any other line.
-/

namespace Lox

namespace Segment

/-- A segment that the text behind it cannot go on for want of a closing quote. -/
def isClosed : Segment → Bool
  | unterminated _ => false
  | _ => true

variable {part : Segment} {behind : List Char}

/-- A segment that stops in front of a text stops in front of the beginning of the text. -/
theorem Stops.of_append {back : List Char} (h : part.Stops (behind ++ back)) :
    part.Stops behind := by
  have next {c : Char} (hc : c ∈ behind.head?) : c ∈ (behind ++ back).head? := by
    rw [List.head?_append, Option.mem_def.1 hc, Option.some_or, Option.mem_some]
  cases part with
  | operator op =>
      exact ⟨fun hslash hc => h.1 hslash (next hc), fun hwide hc => h.2 hwide (next hc)⟩
  | comment body => exact fun c hc => h c (next hc)
  | number whole fraction =>
      cases fraction with
      | some places => exact fun c hc => h c (next hc)
      | none =>
          refine ⟨fun c hc => h.1 c (next hc), ?_⟩
          rintro d more rfl
          exact h.2 d (more ++ back) rfl
  | word word => exact fun c hc => h c (next hc)
  | unterminated body => exact (List.append_eq_nil_iff.1 h).1
  | _ => trivial

/-- A segment stops in front of a blank, unless it goes on to the next newline or quote. -/
theorem stops_blank (hclosed : part.isClosed = true) {c : Char} (hc : IsBlank c)
    (hcomment : ∀ body, part = comment body → c = '\n') (back : List Char) :
    part.Stops (c :: back) := by
  by_cases htoken : part.isToken = true
  · exact stops_of_isBlank htoken hc back
  cases part with
  | comment body =>
      have hnewline : c = '\n' := hcomment body rfl
      simpa [Stops] using hnewline
  | blank d => trivial
  | newline => trivial
  | unexpected d => trivial
  | unterminated body => cases hclosed
  | operator op => exact absurd rfl htoken
  | string body => exact absurd rfl htoken
  | number whole fraction => exact absurd rfl htoken
  | word word => exact absurd rfl htoken

/-- A segment that stops in front of a text stops there too if blanks follow the text. -/
theorem Stops.append_blank (hstop : part.Stops behind) (hclosed : part.isClosed = true) {c : Char}
    (hc : IsBlank c) (hcomment : ∀ body, part = comment body → behind = [] → c = '\n')
    (back : List Char) : part.Stops (behind ++ c :: back) := by
  cases behind with
  | nil => exact stops_blank hclosed hc (fun body hpart => hcomment body hpart rfl) back
  | cons d more =>
      cases part with
      | number whole fraction =>
          cases fraction with
          | some places => exact hstop
          | none =>
              refine ⟨hstop.1, ?_⟩
              intro e rest hpoint
              cases more with
              | nil =>
                  -- the point is the last character of the text, so the blank stands behind it
                  obtain ⟨-, rfl, -⟩ : d = '.' ∧ c = e ∧ back = rest := by simpa using hpoint
                  exact hc.isDigit_eq_false
              | cons f more =>
                  obtain ⟨rfl, rfl, -⟩ : d = '.' ∧ f = e ∧ more ++ c :: back = rest := by
                    simpa using hpoint
                  exact hstop.2 f more rfl
      | unterminated body => cases hclosed
      | _ => exact hstop

end Segment

/-! ## Behind a newline -/

/-- Segments in two parts fit one another, from the first one on. -/
theorem fits_cons_append {part : Segment} {front back : List Segment} :
    Fits (part :: front ++ back) ↔
      part.WellFormed ∧
        part.Stops (front.flatMap Segment.text ++ back.flatMap Segment.text) ∧
        Fits (front ++ back) := by
  rw [← List.flatMap_append]
  exact Iff.rfl

/-- Segments that fit one another up to a place fit one another. -/
theorem Fits.left {front back : List Segment} (h : Fits (front ++ back)) : Fits front := by
  induction front with
  | nil => trivial
  | cons part front ih =>
      rcases fits_cons_append.1 h with ⟨hwf, hstop, hrest⟩
      exact ⟨hwf, hstop.of_append, ih hrest⟩

/-- Segments fit one another in front of other segments if each still stops there. -/
theorem Fits.append {parts rest : List Segment} (h : Fits parts) (hrest : Fits rest)
    (hstops : ∀ part behind, part :: behind <:+ parts → part.Stops (behind.flatMap Segment.text) →
      part.Stops (behind.flatMap Segment.text ++ rest.flatMap Segment.text)) :
    Fits (parts ++ rest) := by
  induction parts with
  | nil => exact hrest
  | cons part parts ih =>
      rcases h with ⟨hwf, hstop, hparts⟩
      refine fits_cons_append.2 ⟨hwf, hstops part parts List.suffix_rfl hstop, ?_⟩
      exact ih hparts fun other behind hsuffix =>
        hstops other behind (hsuffix.trans (List.suffix_cons part parts))

/-- Segments that fit one another still fit if a newline and other segments follow. -/
theorem Fits.append_newline {parts rest : List Segment} (h : Fits parts)
    (hclosed : ∀ part ∈ parts, part.isClosed = true) (hrest : Fits rest) :
    Fits (parts ++ .newline :: rest) := by
  refine h.append ⟨trivial, trivial, hrest⟩ ?_
  intro part behind hsuffix hstop
  have hpart := hclosed part (hsuffix.subset List.mem_cons_self)
  exact hstop.append_blank hpart (Or.inr (Or.inr (Or.inr rfl))) (fun _ _ _ => rfl) _

/-- Segments without any text are none. -/
theorem Fits.eq_nil {parts : List Segment} (h : Fits parts)
    (hempty : parts.flatMap Segment.text = []) : parts = [] := by
  cases parts with
  | nil => rfl
  | cons part rest =>
      rw [List.flatMap_cons, List.append_eq_nil_iff] at hempty
      exact absurd hempty.1 (Segment.text_ne_nil h.1)

/-- A text without an open string is cut up to a newline as it is cut alone, and so is the text
behind the newline. -/
theorem segments_append_newline {front : List Char}
    (hclosed : ∀ part ∈ segments front, part.isClosed = true) (back : List Char) :
    segments (front ++ '\n' :: back) = segments front ++ .newline :: segments back := by
  rw [segments_eq_iff]
  refine ⟨?_, (fits_segments front).append_newline hclosed (fits_segments back)⟩
  rw [List.flatMap_append, List.flatMap_cons, text_segments, text_segments]
  rfl

/-- A text with no report on an open string has no open string. -/
theorem isClosed_of_reports {line : Nat} {parts : List Segment}
    (h : ∀ report ∈ reportsFrom line parts, report.message ≠
      LexicalError.unterminatedString.message) :
    ∀ part ∈ parts, part.isClosed = true := by
  induction parts generalizing line with
  | nil => simp
  | cons part rest ih =>
      rw [reportsFrom] at h
      intro other hother
      rcases List.mem_cons.1 hother with rfl | hother
      · cases other with
        | unterminated body => exact absurd rfl (h _ (List.mem_append_left _ List.mem_cons_self))
        | _ => rfl
      · exact ih (fun report hreport => h report (List.mem_append_right _ hreport)) other hother

/-! ## At the end of a text -/

namespace Segment

/-- A separator is a blank. -/
theorem isBlank_of_isSeparator {c : Char} (h : isSeparator c = true) : IsBlank c := by
  simp only [isSeparator, Bool.or_eq_true, beq_iff_eq] at h
  rcases h with (rfl | rfl) | rfl <;> decide

/-- A separator is no quote. -/
theorem ne_quote_of_isSeparator {c : Char} (h : isSeparator c = true) : c ≠ '"' := by
  rintro rfl
  cases h

/-- A separator between a segment and the text behind it is a segment by itself, or it makes the
segment longer, which is a comment or an open string and stands for the same as before. -/
theorem stops_or_grows {part : Segment} {behind back : List Char} {c : Char}
    (hc : isSeparator c = true) (hwf : part.WellFormed) (hstop : part.Stops (behind ++ back)) :
    part.Stops (behind ++ c :: back) ∨
      behind = [] ∧ ∃ longer : Segment, longer.WellFormed ∧ longer.Stops back ∧
        longer.text = part.text ++ [c] ∧ longer.lineBreaks = part.lineBreaks ∧
        ∀ line : Int, longer.token? line = part.token? line ∧
          longer.report? line = part.report? line := by
  by_cases hclosed : part.isClosed = true
  · by_cases hlast : (∃ body, part = comment body) ∧ behind = []
    · obtain ⟨⟨body, rfl⟩, rfl⟩ := hlast
      refine Or.inr ⟨rfl, comment (body ++ [c]), ?_, hstop, by simp [text], rfl,
        fun _ => ⟨rfl, rfl⟩⟩
      have hnewline := ne_newline_of_isSeparator hc
      simp only [WellFormed, List.mem_append, List.mem_singleton, not_or]
      exact ⟨hwf, hnewline.symm⟩
    · refine Or.inl (hstop.of_append.append_blank hclosed (isBlank_of_isSeparator hc) ?_ back)
      intro body hpart hbehind
      exact absurd ⟨⟨body, hpart⟩, hbehind⟩ hlast
  · cases part with
    | unterminated body =>
        obtain ⟨rfl, rfl⟩ := List.append_eq_nil_iff.1 hstop
        have none_new : newlines [c] = 0 := by
          simp [newlines, ne_newline_of_isSeparator hc]
        refine Or.inr ⟨rfl, unterminated (body ++ [c]), ?_, rfl, by simp [text], ?_, ?_⟩
        · simp only [WellFormed, List.mem_append, List.mem_singleton, not_or]
          exact ⟨hwf, (ne_quote_of_isSeparator hc).symm⟩
        · simp [lineBreaks, none_new]
        · intro line
          exact ⟨rfl, by simp [report?, none_new]⟩
    | _ => exact absurd rfl hclosed

end Segment

/-- A separator may be put between any two segments of a text.  It changes neither the tokens nor
the reports. -/
theorem Fits.insert_separator {c : Char} (hc : Segment.isSeparator c = true)
    {front back : List Segment} (h : Fits (front ++ back)) :
    ∃ longer, Fits (longer ++ back) ∧
      longer.flatMap Segment.text = front.flatMap Segment.text ++ [c] ∧
      ∀ line, tokensFrom line (longer ++ back) = tokensFrom line (front ++ back) ∧
        reportsFrom line (longer ++ back) = reportsFrom line (front ++ back) := by
  induction front with
  | nil => exact ⟨[.blank c], ⟨hc, trivial, h⟩, rfl, fun _ => ⟨rfl, rfl⟩⟩
  | cons part front ih =>
      rcases fits_cons_append.1 h with ⟨hwf, hstop, hrest⟩
      rcases Segment.stops_or_grows hc hwf hstop with
        hreach | ⟨hbehind, grown, hgrown, hgoes, htext, hlines, hsame⟩
      · rcases ih hrest with ⟨longer, hlonger, hspelled, hfound⟩
        refine ⟨part :: longer, fits_cons_append.2 ⟨hwf, ?_, hlonger⟩, ?_, ?_⟩
        · rwa [hspelled, List.append_assoc, List.singleton_append]
        · rw [List.flatMap_cons, List.flatMap_cons, hspelled, List.append_assoc]
        · intro line
          obtain ⟨htokens, hreports⟩ := hfound (line + part.lineBreaks)
          rw [List.cons_append, List.cons_append, tokensFrom, reportsFrom, tokensFrom, reportsFrom,
            htokens, hreports]
          exact ⟨rfl, rfl⟩
      · obtain rfl := hrest.left.eq_nil hbehind
        refine ⟨[grown], ⟨hgrown, hgoes, hrest⟩, by simpa using htext, ?_⟩
        intro line
        simp only [List.singleton_append, tokensFrom, reportsFrom, (hsame line).1, (hsame line).2,
          hlines, and_self]

/-- Separators may be put between any two segments of a text.  They change neither the tokens nor
the reports. -/
theorem Fits.insert_separators {gap : List Char}
    (hgap : ∀ c ∈ gap, Segment.isSeparator c = true) {front back : List Segment}
    (h : Fits (front ++ back)) :
    ∃ longer, Fits (longer ++ back) ∧
      longer.flatMap Segment.text = front.flatMap Segment.text ++ gap ∧
      ∀ line, tokensFrom line (longer ++ back) = tokensFrom line (front ++ back) ∧
        reportsFrom line (longer ++ back) = reportsFrom line (front ++ back) := by
  induction gap generalizing front with
  | nil => exact ⟨front, h, (List.append_nil _).symm, fun _ => ⟨rfl, rfl⟩⟩
  | cons c gap ih =>
      rcases h.insert_separator (hgap c List.mem_cons_self) with ⟨longer, hlonger, htext, hfound⟩
      rcases ih (fun d hd => hgap d (List.mem_cons_of_mem c hd)) hlonger with
        ⟨longest, hlongest, hspelled, hsame⟩
      refine ⟨longest, hlongest, ?_, ?_⟩
      · rw [hspelled, htext, List.append_assoc, List.singleton_append]
      · intro line
        rw [(hsame line).1, (hsame line).2]
        exact hfound line

/-- Separators between two parts of the segments of a text change neither the tokens nor the
reports. -/
theorem scan_insert_separators {front back : List Segment} (h : Fits (front ++ back))
    {gap : List Char} (hgap : ∀ c ∈ gap, Segment.isSeparator c = true) :
    scan (String.ofList
        (front.flatMap Segment.text ++ gap ++ back.flatMap Segment.text)) =
      scan (String.ofList (front.flatMap Segment.text ++ back.flatMap Segment.text)) := by
  rcases h.insert_separators hgap with ⟨longer, hlonger, htext, hfound⟩
  obtain ⟨htokens, hreports⟩ := hfound 1
  rw [← htext, ← List.flatMap_append, ← List.flatMap_append, scan, scan, String.toList_ofList,
    String.toList_ofList, segments_flatMap hlonger, segments_flatMap h, htokens, hreports]

/-- Separators at the end of a text change neither the tokens nor the reports. -/
theorem scan_append_separators {text gap : List Char}
    (hgap : ∀ c ∈ gap, Segment.isSeparator c = true) :
    scan (String.ofList (text ++ gap)) = scan (String.ofList text) := by
  have whole : Fits (segments text ++ []) := by
    rw [List.append_nil]
    exact fits_segments text
  have inserted := scan_insert_separators whole hgap
  rwa [text_segments, List.flatMap_nil, List.append_nil, List.append_nil] at inserted

/-! ## Single lines -/

/-- A token on another line. -/
def Token.onLine (line : Int) (token : Token) : Token :=
  { token with line := line }

/-- A diagnostic about another line. -/
def Diagnostic.onLine (line : Int) (report : Diagnostic) : Diagnostic :=
  { report with line := line }

namespace Segment

variable {part : Segment}

/-- A segment stands for the same token on every line. -/
theorem token?_onLine (part : Segment) (here there : Int) :
    part.token? there = (part.token? here).map (Token.onLine there) := by
  cases part <;> rfl

/-- A fault that does not go on over a newline is reported alike on every line. -/
theorem report?_onLine (h : part.lineBreaks = 0) (here there : Int) :
    part.report? there = (part.report? here).map (Diagnostic.onLine there) := by
  cases part with
  | unterminated body =>
      have none_inside : newlines body = 0 := h
      simp [report?, Diagnostic.onLine, Diagnostic.ofError, none_inside]
  | _ => rfl

end Segment

variable {parts : List Segment}

/-- A text without newlines stays on its line. -/
theorem lineBreaks_of_mem_segments {text : List Char} (h : '\n' ∉ text) :
    ∀ part ∈ segments text, part.lineBreaks = 0 := by
  intro part hpart
  rw [← Segment.newlines_text (wellFormed_of_mem_segments hpart), newlines_eq_zero_iff]
  intro hnewline
  apply h
  rw [← text_segments text]
  exact List.mem_flatMap.2 ⟨part, hpart, hnewline⟩

/-- The tokens of a single line are on it, and they are the same on any other line. -/
theorem tokensFrom_onLine (h : ∀ part ∈ parts, part.lineBreaks = 0) (here there : Nat) :
    tokensFrom there parts = (tokensFrom here parts).map (Token.onLine there) := by
  induction parts with
  | nil => rfl
  | cons part rest ih =>
      have hpart := h part List.mem_cons_self
      rw [tokensFrom, tokensFrom, hpart, part.token?_onLine here there, List.map_append,
        Nat.add_zero, Nat.add_zero, ih fun other hother => h other (List.mem_cons_of_mem _ hother)]
      cases part.token? here <;> rfl

/-- The reports on a single line are the same on any other line. -/
theorem reportsFrom_onLine (h : ∀ part ∈ parts, part.lineBreaks = 0) (here there : Nat) :
    reportsFrom there parts = (reportsFrom here parts).map (Diagnostic.onLine there) := by
  induction parts with
  | nil => rfl
  | cons part rest ih =>
      have hpart := h part List.mem_cons_self
      rw [reportsFrom, reportsFrom, hpart, Segment.report?_onLine hpart here there,
        List.map_append, Nat.add_zero, Nat.add_zero,
        ih fun other hother => h other (List.mem_cons_of_mem _ hother)]
      cases part.report? here <;> rfl

end Lox
