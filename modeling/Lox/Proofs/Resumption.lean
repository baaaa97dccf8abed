import Lox.Proofs.Seams

/-!
# Taking up a scan

A pass needs nothing of the passes before it but the place and the line.  So a scan can be taken up
behind any pass: what is left of the text is scanned as a text of its own, and what is found there
is put as many lines further down as have been read.

A text of whole lines without an open string is scanned for good: whatever text follows it, no
segment reaches over the last newline, and the two texts are scanned one behind the other.

Main results:

- Theorem `Segment.stops_take_two`: two characters behind a segment decide whether it stops.
- Theorem `segments_append_of_endsLine`: a text of whole lines is cut alike whatever follows it.
- Theorem `Cursor.Completes.pass?`: every pass leaves a cursor that completes the scan.
- Theorem `scan_eq_resumed`: a scan is what a cursor has found behind any pass and a scan of the
  rest, and a scan of whole lines is gone on with by a scan of what follows them.
-/

namespace Lox

/-! ## Further down -/

/-- A token some lines further down. -/
def Token.shiftDown (lines : Nat) (token : Token) : Token :=
  { token with line := token.line + lines }

/-- A diagnostic some lines further down. -/
def Diagnostic.shiftDown (lines : Nat) (report : Diagnostic) : Diagnostic :=
  { report with line := report.line + lines }

namespace Segment

/-- A segment further down stands for the same token further down. -/
theorem token?_add (part : Segment) (line : Int) (lines : Nat) :
    part.token? (line + lines) = (part.token? line).map (Token.shiftDown lines) := by
  cases part <;> rfl

/-- A segment further down is reported alike further down. -/
theorem report?_add (part : Segment) (line : Int) (lines : Nat) :
    part.report? (line + lines) = (part.report? line).map (Diagnostic.shiftDown lines) := by
  cases part with
  | unterminated body =>
      have sum : line + lines + newlines body = line + newlines body + lines := by omega
      simp only [report?, Diagnostic.ofError, Diagnostic.shiftDown, Option.map_some, sum]
  | _ => rfl

end Segment

/-- Segments further down stand for the same tokens further down. -/
theorem tokensFrom_add (line lines : Nat) (parts : List Segment) :
    tokensFrom (line + lines) parts = (tokensFrom line parts).map (Token.shiftDown lines) := by
  induction parts generalizing line with
  | nil => simp [tokensFrom, Token.shiftDown, Token.eof]
  | cons part rest ih =>
      rw [tokensFrom, tokensFrom, Nat.add_right_comm line lines, ih, Int.natCast_add,
        Segment.token?_add, List.map_append]
      cases part.token? line <;> rfl

/-- Segments further down are reported alike further down. -/
theorem reportsFrom_add (line lines : Nat) (parts : List Segment) :
    reportsFrom (line + lines) parts =
      (reportsFrom line parts).map (Diagnostic.shiftDown lines) := by
  induction parts generalizing line with
  | nil => rfl
  | cons part rest ih =>
      rw [reportsFrom, reportsFrom, Nat.add_right_comm line lines, ih, Int.natCast_add,
        Segment.report?_add, List.map_append]
      cases part.report? line <;> rfl

/-! ## Whole lines -/

/-- A text of whole lines: it is empty or ends in a newline. -/
def EndsLine (text : List Char) : Prop :=
  text = [] ∨ text.getLast? = some '\n'

namespace Segment

variable {part : Segment} {behind : List Char}

/-- Two characters behind a segment decide whether it stops. -/
theorem stops_take_two (part : Segment) (behind : List Char) :
    part.Stops (behind.take 2) ↔ part.Stops behind := by
  rcases behind with _ | ⟨c, _ | ⟨d, more⟩⟩
  · rfl
  · rfl
  · cases part with
    | number whole fraction =>
        cases fraction with
        | some places => exact Iff.rfl
        | none =>
            -- a point and the character behind it are both among the two
            refine and_congr Iff.rfl ⟨?_, ?_⟩
            · intro h e back hpoint
              obtain ⟨rfl, rfl, -⟩ : c = '.' ∧ d = e ∧ more = back := by simpa using hpoint
              exact h d [] rfl
            · intro h e back hpoint
              obtain ⟨rfl, rfl, -⟩ : c = '.' ∧ d = e ∧ [] = back := by simpa using hpoint
              exact h d more rfl
    | unterminated body => simp [Stops]
    | _ => exact Iff.rfl

/-- A segment that stops before a text of whole lines stops there whatever follows the text. -/
theorem Stops.append_of_getLast? (hstop : part.Stops behind) (hclosed : part.isClosed = true)
    (hend : behind.getLast? = some '\n') (more : List Char) : part.Stops (behind ++ more) := by
  rcases behind with _ | ⟨c, _ | ⟨d, rest⟩⟩
  · cases hend
  · cases hend
    exact stops_blank hclosed (Or.inr (Or.inr (Or.inr rfl))) (fun _ _ => rfl) more
  · rw [← stops_take_two] at hstop ⊢
    exact hstop

/-- A closed segment that ends in a newline is a newline. -/
theorem eq_newline_of_getLast? (hwf : part.WellFormed) (hclosed : part.isClosed = true)
    (hend : part.text.getLast? = some '\n') : part = newline := by
  have some_lines : part.lineBreaks ≠ 0 := by
    rw [← newlines_text hwf]
    intro none_inside
    exact newlines_eq_zero_iff.1 none_inside (List.mem_of_getLast? hend)
  cases part with
  | newline => rfl
  | string body =>
      have quoted : (string body).text = ('"' :: body) ++ ['"'] := rfl
      rw [quoted, List.getLast?_concat] at hend
      cases hend
  | unterminated body => cases hclosed
  | _ => exact absurd rfl some_lines

end Segment

/-- Segments of whole lines still fit one another if other segments follow. -/
theorem Fits.append_of_endsLine {parts rest : List Segment} (h : Fits parts)
    (hclosed : ∀ part ∈ parts, part.isClosed = true)
    (hend : EndsLine (parts.flatMap Segment.text)) (hrest : Fits rest) : Fits (parts ++ rest) := by
  refine h.append hrest ?_
  intro part behind hsuffix hstop
  have hmem : part ∈ parts := hsuffix.subset List.mem_cons_self
  have hwf := h.wellFormed_of_mem hmem
  obtain ⟨front, rfl⟩ := hsuffix
  have hlast : (part.text ++ behind.flatMap Segment.text).getLast? = some '\n' := by
    have hsome : part.text ++ behind.flatMap Segment.text ≠ [] := by
      simp [Segment.text_ne_nil hwf]
    rw [List.flatMap_append, List.flatMap_cons] at hend
    rw [← hend.resolve_left (by simp [Segment.text_ne_nil hwf]),
      List.getLast?_append_of_ne_nil _ hsome]
  by_cases hbehind : behind.flatMap Segment.text = []
  · -- the last segment is the newline itself, which stops before anything
    rw [hbehind, List.append_nil] at hlast
    obtain rfl := Segment.eq_newline_of_getLast? hwf (hclosed part hmem) hlast
    trivial
  · rw [List.getLast?_append_of_ne_nil _ hbehind] at hlast
    exact hstop.append_of_getLast? (hclosed part hmem) hlast _

/-- A text of whole lines without an open string is cut alike whatever follows it. -/
theorem segments_append_of_endsLine {front : List Char} (hend : EndsLine front)
    (hclosed : ∀ part ∈ segments front, part.isClosed = true) (back : List Char) :
    segments (front ++ back) = segments front ++ segments back := by
  rw [segments_eq_iff, List.flatMap_append, text_segments, text_segments]
  refine ⟨rfl, (fits_segments front).append_of_endsLine hclosed ?_ (fits_segments back)⟩
  rwa [text_segments]

/-- Segments behind some lines stand for what a scan of their text finds, put further down. -/
theorem tokensFrom_segments (lines : Nat) (text : List Char) :
    tokensFrom (1 + lines) (segments text) =
        (scan (String.ofList text)).tokens.map (Token.shiftDown lines) ∧
      reportsFrom (1 + lines) (segments text) =
        (scan (String.ofList text)).diagnostics.map (Diagnostic.shiftDown lines) := by
  rw [scan, String.toList_ofList]
  exact ⟨tokensFrom_add 1 lines _, reportsFrom_add 1 lines _⟩

namespace Cursor

/-! ## Behind a pass -/

/-- A cursor that completes the scan of a text: it is in step, and what it has found and what the
segments ahead stand for are together what the scan finds. -/
structure Completes (source : String) (c : Cursor) : Prop where
  inStep : InStep source.toList c
  tokens_eq : (scan source).tokens = c.tokens ++ tokensFrom c.line (segments c.ahead)
  diagnostics_eq :
    (scan source).diagnostics = c.diagnostics ++ reportsFrom c.line (segments c.ahead)

/-- A cursor in front of a text completes its scan. -/
theorem completes_ofSource (source : String) : Completes source (ofSource source) where
  inStep := inStep_ofSource source
  tokens_eq := rfl
  diagnostics_eq := rfl

namespace Completes

variable {source : String} {c next : Cursor}

/-- Every pass leaves a cursor that completes the scan. -/
theorem pass? (hc : Completes source c) (h : c.pass? = some next) : Completes source next where
  inStep := hc.inStep.pass? h
  tokens_eq := by rw [hc.tokens_eq, tokens_ahead_of_pass? h]
  diagnostics_eq := by rw [hc.diagnostics_eq, diagnostics_ahead_of_pass? h]

/-- What is left for a cursor that completes a scan is a scan of the rest of the text, put as many
lines further down as have been read. -/
theorem eq_shiftDown (hc : Completes source c) :
    let rest := scan (String.ofList (source.toList.drop c.current))
    let lines := newlines (source.toList.take c.current)
    (scan source).tokens = c.tokens ++ rest.tokens.map (Token.shiftDown lines) ∧
      (scan source).diagnostics =
        c.diagnostics ++ rest.diagnostics.map (Diagnostic.shiftDown lines) := by
  have hahead : c.ahead = source.toList.drop c.current := by rw [ahead, hc.inStep.source_eq]
  obtain ⟨htokens, hreports⟩ :=
    tokensFrom_segments (newlines (source.toList.take c.current)) c.ahead
  rw [← hc.inStep.line_eq] at htokens hreports
  rw [hc.tokens_eq, hc.diagnostics_eq, htokens, hreports, hahead]
  exact ⟨rfl, rfl⟩

end Completes

end Cursor

/-! ## The law of resumption -/

/-- A scan of whole lines without an open string is gone on with by a scan of what follows them. -/
theorem scan_append_of_endsLine {source : String} (hend : EndsLine source.toList)
    (hreports : ∀ report ∈ (scan source).diagnostics,
      report.message ≠ LexicalError.unterminatedString.message) (behind : String) :
    let lines := newlines source.toList
    (scan (source ++ behind)).tokens =
        (scan source).tokens.dropLast ++ (scan behind).tokens.map (Token.shiftDown lines) ∧
      (scan (source ++ behind)).diagnostics =
        (scan source).diagnostics ++
          (scan behind).diagnostics.map (Diagnostic.shiftDown lines) := by
  have hclosed : ∀ part ∈ segments source.toList, part.isClosed = true :=
    isClosed_of_reports hreports
  have hparts := segments_append_of_endsLine hend hclosed behind.toList
  have hline : lineBehind 1 (segments source.toList) = 1 + newlines source.toList := by
    rw [lineBehind_eq (fits_segments source.toList), text_segments]
  obtain ⟨later_tokens, later_reports⟩ :=
    tokensFrom_segments (newlines source.toList) behind.toList
  rw [String.ofList_toList] at later_tokens later_reports
  constructor
  · change tokensFrom 1 (segments (source ++ behind).toList) = _
    rw [String.toList_append, hparts, tokensFrom_append, hline, later_tokens]
    rfl
  · change reportsFrom 1 (segments (source ++ behind).toList) = _
    rw [String.toList_append, hparts, reportsFrom_append, hline, later_reports]
    rfl

/-- The law of resumption.  In front of the first pass over a text and behind every pass, the scan
of the text is what the cursor has found and a scan of the rest, put as many lines further down as
have been read.  And if the text is one of whole lines and no string in it is left open, the scan of
any text that it is in front of is its own scan without the closing token and a scan of what
follows, put further down by its lines. -/
theorem scan_eq_resumed (source : String) :
    (∀ c ∈ Cursor.ofSource source :: (Cursor.ofSource source).passes,
      let rest := scan (String.ofList (source.toList.drop c.current))
      let lines := newlines (source.toList.take c.current)
      (scan source).tokens = c.tokens ++ rest.tokens.map (Token.shiftDown lines) ∧
        (scan source).diagnostics =
          c.diagnostics ++ rest.diagnostics.map (Diagnostic.shiftDown lines)) ∧
      (EndsLine source.toList →
        (∀ report ∈ (scan source).diagnostics,
          report.message ≠ LexicalError.unterminatedString.message) →
        ∀ behind : String,
          let lines := newlines source.toList
          (scan (source ++ behind)).tokens =
              (scan source).tokens.dropLast ++
                (scan behind).tokens.map (Token.shiftDown lines) ∧
            (scan (source ++ behind)).diagnostics =
              (scan source).diagnostics ++
                (scan behind).diagnostics.map (Diagnostic.shiftDown lines)) := by
  constructor
  · intro c hc
    have completes : Cursor.Completes source c :=
      Cursor.forall_mem_passes (fun _ _ h hpass => h.pass? hpass)
        (Cursor.completes_ofSource source) c hc
    exact completes.eq_shiftDown
  · intro hend hreports behind
    exact scan_append_of_endsLine hend hreports behind

/-- A string over two lines and a point in front of the last newline, taken up behind the string,
and gone on with by a digit and a fault. -/
theorem scan_eq_resumed_two_lines :
    let source := "\"a\n\"1.\n"
    (∃ c ∈ Cursor.ofSource source :: (Cursor.ofSource source).passes, c.current = 4 ∧
      (scan source).tokens =
        c.tokens ++ (scan "1.\n").tokens.map (Token.shiftDown 1)) ∧
      EndsLine source.toList ∧
      (∀ report ∈ (scan source).diagnostics,
        report.message ≠ LexicalError.unterminatedString.message) ∧
      (scan (source ++ "5@")).tokens =
        (scan source).tokens.dropLast ++ (scan "5@").tokens.map (Token.shiftDown 2) ∧
      (scan (source ++ "5@")).diagnostics = [⟨3, "Unexpected character."⟩] := by
  intro source
  obtain ⟨hpasses, hlines⟩ := scan_eq_resumed source
  have hahead : (Cursor.ofSource source).ahead = '"' :: "a\n\"1.\n".toList := by decide +kernel
  obtain ⟨c, first, place⟩ :
      ∃ c, (Cursor.ofSource source).pass? = some c ∧ c.current = 4 :=
    ⟨_, Cursor.pass?_of_ahead_cons hahead, by decide +kernel⟩
  have behind : c ∈ Cursor.ofSource source :: (Cursor.ofSource source).passes := by
    simp [Cursor.passes_of_some first]
  have rest : String.ofList (source.toList.drop 4) = "1.\n" := by decide +kernel
  have one_line : newlines (source.toList.take 4) = 1 := by decide +kernel
  obtain ⟨taken_up, -⟩ := hpasses c behind
  rw [place, rest, one_line] at taken_up
  have hend : EndsLine source.toList := Or.inr (by decide +kernel)
  have hclosed : ∀ report ∈ (scan source).diagnostics,
      report.message ≠ LexicalError.unterminatedString.message := by decide +kernel
  have two_lines : newlines source.toList = 2 := by decide +kernel
  obtain ⟨htokens, hreports⟩ := hlines hend hclosed "5@"
  rw [two_lines] at htokens
  refine ⟨⟨c, behind, place, taken_up⟩, hend, hclosed, htokens, ?_⟩
  rw [hreports]
  decide +kernel

end Lox
