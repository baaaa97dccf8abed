import Lox.LanguageServer
import Lox.Proofs.InertText
import Lox.Proofs.StringBodies

/-!
# Line ends with carriage returns

A text may end its lines with a carriage return and a newline instead of a newline alone.  A
carriage return in front of a newline is a separator between lexemes, or a part of a comment or of a
string, and it is dropped where a line is shown.  So nothing that is found changes but the strings
that go on over a line end, and nothing that is shown for a report changes at all.

Two steps lead from the segments of a text to those of the text with carriage returns: the bodies of
the strings are changed in their places, and separators are put in front of the newlines between
lexemes.

Main results:

- Theorem `Fits.map_withReturns`: segments fit one another with changed bodies of strings.
- Theorem `Fits.widen_newlines`: separators may be put in front of all newlines between segments.
- Theorem `scan_withReturns_eq`: the scan of a text with carriage returns.
- Theorem `map_splitLines_addReturns`: the lines of a text with carriage returns are shown as those
  of the text.
- Theorem `documentDiagnostics_withReturns`: an editor is told the same about both kinds of texts.
- Theorem `scan_withReturns`: all of this for one text.
-/

namespace Lox

/-! ## Texts with carriage returns -/

/-- Puts a carriage return in front of every newline. -/
def addReturns (text : List Char) : List Char :=
  text.flatMap fun c => if c = '\n' then ['\r', '\n'] else [c]

/-- A text with a carriage return in front of every newline. -/
def withReturns (text : String) : String :=
  String.ofList (addReturns text.toList)

theorem addReturns_newline (rest : List Char) :
    addReturns ('\n' :: rest) = '\r' :: '\n' :: addReturns rest := rfl

theorem addReturns_cons {c : Char} (hc : c ≠ '\n') (rest : List Char) :
    addReturns (c :: rest) = c :: addReturns rest := by
  simp [addReturns, hc]

theorem addReturns_append (front back : List Char) :
    addReturns (front ++ back) = addReturns front ++ addReturns back :=
  List.flatMap_append

/-- A text on one line is left as it is. -/
theorem addReturns_of_not_mem {text : List Char} (h : '\n' ∉ text) : addReturns text = text := by
  induction text with
  | nil => rfl
  | cons c rest ih =>
      rw [List.mem_cons, not_or] at h
      rw [addReturns_cons (Ne.symm h.1), ih h.2]

/-- No characters but carriage returns come into a text. -/
theorem mem_of_mem_addReturns {text : List Char} {c : Char} (h : c ∈ addReturns text)
    (hc : c ≠ '\r') : c ∈ text := by
  obtain ⟨d, hd, hmem⟩ := List.mem_flatMap.1 h
  split at hmem
  · next hnewline =>
    rcases List.mem_pair.1 hmem with rfl | rfl
    · exact absurd rfl hc
    · exact hnewline ▸ hd
  · rwa [List.mem_singleton.1 hmem]

/-- The newlines stay as many. -/
theorem newlines_addReturns (text : List Char) : newlines (addReturns text) = newlines text := by
  induction text with
  | nil => rfl
  | cons c rest ih =>
      by_cases hc : c = '\n'
      · subst hc
        simpa [newlines, addReturns_newline] using ih
      · rw [addReturns_cons hc]
        simpa [newlines, hc] using ih

/-- A quoted body is changed between its quotes. -/
theorem addReturns_quoted (body : List Char) :
    addReturns (quoted body) = quoted (addReturns body) := by
  rw [quoted, addReturns_cons (by decide), addReturns_append]
  rfl

/-! ## Bodies of strings -/

/-- A value with carriage returns in it if it is a text. -/
def Literal.withReturns : Literal → Literal
  | text value => .text (Lox.withReturns value)
  | number value => .number value

/-- A token with carriage returns in its lexeme and its value. -/
def Token.withReturns (token : Token) : Token :=
  { token with
    lexeme := Lox.withReturns token.lexeme
    literal := token.literal.map Literal.withReturns }

namespace Segment

/-- A segment with carriage returns in its body if it is a string. -/
def withReturns : Segment → Segment
  | string body => string (addReturns body)
  | unterminated body => unterminated (addReturns body)
  | part => part

/-- The text of a segment with a carriage return if it is a newline. -/
def wideText : Segment → List Char
  | newline => ['\r', '\n']
  | part => part.text

variable {part : Segment}

/-- Only strings and newlines hold newlines. -/
theorem addReturns_text_of_lineBreaks (hwf : part.WellFormed) (h : part.lineBreaks = 0) :
    addReturns part.text = part.text := by
  rw [← newlines_text hwf, newlines_eq_zero_iff] at h
  exact addReturns_of_not_mem h

/-- A text with carriage returns is the text of segments with carriage returns, if each newline
between them has one too. -/
theorem wideText_withReturns (hwf : part.WellFormed) :
    part.withReturns.wideText = addReturns part.text := by
  cases part with
  | newline => rfl
  | string body => exact (addReturns_quoted body).symm
  | unterminated body => exact (addReturns_cons (by decide) body).symm
  | _ => exact (addReturns_text_of_lineBreaks hwf rfl).symm

/-- Segments with carriage returns span as many lines. -/
theorem lineBreaks_withReturns (part : Segment) :
    part.withReturns.lineBreaks = part.lineBreaks := by
  cases part with
  | string body => exact newlines_addReturns body
  | unterminated body => exact newlines_addReturns body
  | _ => rfl

/-- Segments with carriage returns are reported alike. -/
theorem report?_withReturns (part : Segment) (line : Int) :
    part.withReturns.report? line = part.report? line := by
  cases part with
  | unterminated body => simp only [withReturns, report?, newlines_addReturns]
  | _ => rfl

/-- A segment with carriage returns stands for its token with carriage returns. -/
theorem token?_withReturns (hwf : part.WellFormed) (line : Int) :
    part.withReturns.token? line = (part.token? line).map Token.withReturns := by
  cases part with
  | string body =>
      have lexeme : addReturns (string body).text = (string (addReturns body)).text :=
        addReturns_quoted body
      simp [withReturns, token?, Token.withReturns, Literal.withReturns, Lox.withReturns, lexeme]
  | operator op =>
      have lexeme := addReturns_text_of_lineBreaks hwf rfl
      simp [withReturns, token?, Token.withReturns, Lox.withReturns, lexeme]
  | number whole fraction =>
      have lexeme := addReturns_text_of_lineBreaks hwf rfl
      simp [withReturns, token?, Token.withReturns, Literal.withReturns, Lox.withReturns, lexeme]
  | word word =>
      have lexeme := addReturns_text_of_lineBreaks hwf rfl
      simp [withReturns, token?, Token.withReturns, Lox.withReturns, lexeme]
  | _ => rfl

/-- Only a string over several lines has another token with carriage returns. -/
theorem token_withReturns_eq_or (hwf : part.WellFormed) {line : Int} {token : Token}
    (h : part.token? line = some token) :
    token.withReturns = token ∨ token.type = .string ∧ '\n' ∈ token.lexeme.toList := by
  by_cases hsame : part.withReturns = part
  · have changed := token?_withReturns hwf line
    rw [hsame, h, Option.map_some, Option.some.injEq] at changed
    exact .inl changed.symm
  · cases part with
    | string body =>
        have inside : '\n' ∈ body := by
          by_contra hnone
          exact hsame (congrArg string (addReturns_of_not_mem hnone))
        cases h
        refine .inr ⟨rfl, ?_⟩
        rw [String.toList_ofList]
        exact List.mem_cons_of_mem _ (List.mem_append_left _ inside)
    | unterminated body => cases h
    | _ => exact absurd rfl hsame

end Segment

variable {parts front back : List Segment}

/-- Segments fit one another with changed bodies of strings. -/
theorem Fits.map_withReturns (h : Fits (front ++ back)) :
    Fits (front ++ back.map Segment.withReturns) := by
  have closing {body : List Char} (hbody : '"' ∉ body) : '"' ∉ addReturns body :=
    fun hquote => hbody (mem_of_mem_addReturns hquote (by decide))
  induction back generalizing front with
  | nil => exact h
  | cons part back ih =>
      -- one segment after the other is changed, in front of those that are still to be changed
      have next {other : Segment} (hother : Fits (front ++ other :: back)) :
          Fits (front ++ other :: back.map Segment.withReturns) := by
        have placed : Fits ((front ++ [other]) ++ back) := by simpa using hother
        simpa using ih placed
      cases part with
      | string body => exact next (h.replace_body (closing h.right.1))
      | unterminated body =>
          refine next (h.replace_quoted ?_ rfl rfl)
          exact ⟨closing h.right.1, h.right.2.1, h.right.2.2⟩
      | _ => exact next h

/-- Carriage returns in the bodies of strings leave everything else that the segments stand for. -/
theorem tokensFrom_map_withReturns (h : ∀ part ∈ parts, part.WellFormed) (line : Nat) :
    tokensFrom line (parts.map Segment.withReturns) =
      (tokensFrom line parts).map Token.withReturns := by
  induction parts generalizing line with
  | nil => rfl
  | cons part rest ih =>
      rw [List.map_cons, tokensFrom, tokensFrom, List.map_append, Segment.lineBreaks_withReturns,
        ih fun other hother => h other (List.mem_cons_of_mem _ hother),
        Segment.token?_withReturns (h part List.mem_cons_self), Option.toList_map]

/-- Carriage returns in the bodies of strings change no report. -/
theorem reportsFrom_map_withReturns (line : Nat) (parts : List Segment) :
    reportsFrom line (parts.map Segment.withReturns) = reportsFrom line parts := by
  induction parts generalizing line with
  | nil => rfl
  | cons part rest ih =>
      rw [List.map_cons, reportsFrom, reportsFrom, Segment.lineBreaks_withReturns, ih,
        Segment.report?_withReturns]

/-! ## Newlines between lexemes -/

/-- Separators may be put in front of all newlines between segments. -/
theorem Fits.widen_newlines (h : Fits (front ++ back)) :
    ∃ wide, Fits wide ∧
      wide.flatMap Segment.text = front.flatMap Segment.text ++ back.flatMap Segment.wideText ∧
      ∀ line, tokensFrom line wide = tokensFrom line (front ++ back) ∧
        reportsFrom line wide = reportsFrom line (front ++ back) := by
  -- one segment after the other moves to the front, a newline with a separator in front of it
  induction back generalizing front with
  | nil => exact ⟨front, by simpa using h, by simp, fun _ => by simp⟩
  | cons part back ih =>
      by_cases hpart : part = .newline
      · subst hpart
        obtain ⟨longer, hlonger, htext, hsame⟩ := h.insert_separator (c := '\r') rfl
        have placed : Fits ((longer ++ [.newline]) ++ back) := by simpa using hlonger
        obtain ⟨wide, hwide, hspelled, hfound⟩ := ih placed
        refine ⟨wide, hwide, ?_, ?_⟩
        · rw [hspelled, List.flatMap_append, htext]
          simp [Segment.wideText, Segment.text]
        · intro line
          rw [(hfound line).1, (hfound line).2, List.append_assoc, List.singleton_append]
          exact hsame line
      · have text : part.wideText = part.text := by
          cases part with
          | newline => exact absurd rfl hpart
          | _ => rfl
        have placed : Fits ((front ++ [part]) ++ back) := by simpa using h
        obtain ⟨wide, hwide, hspelled, hfound⟩ := ih placed
        refine ⟨wide, hwide, ?_, ?_⟩
        · simp [hspelled, text]
        · intro line
          simpa using hfound line

/-- The scan of a text with carriage returns: the tokens have carriage returns in them, the reports
are the same. -/
theorem scan_withReturns_eq (source : String) :
    scan (withReturns source) =
      ⟨(scan source).tokens.map Token.withReturns, (scan source).diagnostics⟩ := by
  have hwf : ∀ part ∈ segments source.toList, part.WellFormed :=
    fun _ hpart => wellFormed_of_mem_segments hpart
  have hfits : Fits ([] ++ (segments source.toList).map Segment.withReturns) :=
    Fits.map_withReturns (fits_segments source.toList)
  obtain ⟨wide, hwide, htext, hfound⟩ := hfits.widen_newlines
  have spelled : wide.flatMap Segment.text = addReturns source.toList := by
    rw [htext, List.flatMap_nil, List.nil_append, List.flatMap_map,
      List.flatMap_congr fun part hpart => Segment.wideText_withReturns (hwf part hpart)]
    nth_rewrite 2 [← text_segments source.toList]
    exact List.flatMap_assoc.symm
  have parts : segments (withReturns source).toList = wide := by
    rw [withReturns, String.toList_ofList, ← spelled, segments_flatMap hwide]
  rw [scan, parts, (hfound 1).1, (hfound 1).2, List.nil_append, tokensFrom_map_withReturns hwf,
    reportsFrom_map_withReturns]
  rfl

/-! ## Lines that are shown -/

/-- A character that ends no line goes in front of the first line. -/
theorem splitLines_cons {c : Char} (hc : c ≠ '\n') {text line : List Char}
    {others : List (List Char)} (h : splitLines text = line :: others) :
    splitLines (c :: text) = (c :: line) :: others := by
  rw [splitLines, pieces] at h ⊢
  rw [List.foldr_cons, h, consPiece, if_neg hc]

/-- Stripped texts stay the same with the same character in front. -/
theorem stripTrailing_cons_congr {p : Char → Bool} {first second : List Char}
    (h : stripTrailing p first = stripTrailing p second) (c : Char) :
    stripTrailing p (c :: first) = stripTrailing p (c :: second) := by
  rw [← List.singleton_append, stripTrailing_append, h, ← stripTrailing_append,
    List.singleton_append]

/-- The lines of a text with carriage returns are shown as those of the text. -/
theorem map_splitLines_addReturns (text : List Char) :
    (splitLines (addReturns text)).map (stripTrailing (· == '\r')) =
      (splitLines text).map (stripTrailing (· == '\r')) := by
  have some_line (text : List Char) : splitLines text ≠ [] := by
    apply List.ne_nil_of_length_pos
    rw [length_splitLines]
    exact Nat.succ_pos _
  induction text with
  | nil => rfl
  | cons c rest ih =>
      by_cases hc : c = '\n'
      · -- the carriage return stands alone on the line that the newline ends
        subst hc
        have alone : '\n' ∉ ['\r'] := by decide
        have wide :
            splitLines (addReturns ('\n' :: rest)) = ['\r'] :: splitLines (addReturns rest) :=
          pieces_append_cons _ alone
        have plain : splitLines ('\n' :: rest) = [] :: splitLines rest :=
          pieces_append_cons _ List.not_mem_nil
        rw [wide, plain, List.map_cons, List.map_cons, ih]
        rfl
      · obtain ⟨first, others, hfirst⟩ := List.exists_cons_of_ne_nil (some_line (addReturns rest))
        obtain ⟨second, more, hsecond⟩ := List.exists_cons_of_ne_nil (some_line rest)
        rw [hfirst, hsecond, List.map_cons, List.map_cons, List.cons.injEq] at ih
        rw [addReturns_cons hc, splitLines_cons hc hfirst, splitLines_cons hc hsecond,
          List.map_cons, List.map_cons, stripTrailing_cons_congr ih.1, ih.2]

/-- Every line of a text is shown as without the carriage returns. -/
theorem lineText_withReturns (source : String) (line : Int) :
    lineText (withReturns source) line = lineText source line := by
  have shown := congrArg (·[line.toNat - 1]?) (map_splitLines_addReturns source.toList)
  simp only [List.getElem?_map] at shown
  unfold lineText
  rw [withReturns, String.toList_ofList]
  cases hwide : (splitLines (addReturns source.toList))[line.toNat - 1]? with
  | none =>
      rw [hwide, Option.map_none, eq_comm, Option.map_eq_none_iff] at shown
      rw [shown]
  | some text =>
      rw [hwide, Option.map_some, eq_comm, Option.map_eq_some_iff] at shown
      obtain ⟨plain, hplain, hsame⟩ := shown
      simp only [hplain, hsame]

/-- Every block quotes the same line. -/
theorem Diagnostic.formatContext_withReturns (report : Diagnostic) (source filename : String) :
    report.formatContext (withReturns source) filename = report.formatContext source filename := by
  unfold formatContext
  rw [lineText_withReturns]

/-- A document with carriage returns has the same diagnostics in the same places. -/
theorem documentDiagnostics_withReturns (source : String) :
    documentDiagnostics (withReturns source) = documentDiagnostics source := by
  rw [documentDiagnostics, documentDiagnostics, scan_withReturns_eq]
  apply List.map_congr_left
  intro report _
  rw [Diagnostic.place, Diagnostic.place, lineText_withReturns]

/-! ## Scans -/

/-- Line ends with carriage returns are like line ends without.  If every newline of a text gets a
carriage return in front of it, the tokens have the same types and lines, and the same lexemes and
values but for the carriage returns in them; only strings over several lines have any.  The reports
are the same, every line is shown alike and every block for a report is the same, and so are the
diagnostics of the document that an editor gets. -/
theorem scan_withReturns (source : String) :
    (scan (withReturns source)).tokens = (scan source).tokens.map Token.withReturns ∧
      (∀ token ∈ (scan source).tokens,
        token.withReturns = token ∨ token.type = .string ∧ '\n' ∈ token.lexeme.toList) ∧
      (scan (withReturns source)).diagnostics = (scan source).diagnostics ∧
      (∀ line, lineText (withReturns source) line = lineText source line) ∧
      (∀ (report : Diagnostic) (filename : String),
        report.formatContext (withReturns source) filename =
          report.formatContext source filename) ∧
      documentDiagnostics (withReturns source) = documentDiagnostics source := by
  refine ⟨by rw [scan_withReturns_eq], ?_, by rw [scan_withReturns_eq], lineText_withReturns source,
    fun report filename => report.formatContext_withReturns source filename,
    documentDiagnostics_withReturns source⟩
  intro token htoken
  rcases token?_or_eof_of_mem_scan htoken with ⟨part, hwf, line, hline⟩ | ⟨line, rfl⟩
  · exact Segment.token_withReturns_eq_or hwf hline
  · exact .inl rfl

end Lox
