import Lox.Proofs.Seams
import Lox.Proofs.SessionCourse

/-!
# Sessions and scripts

A session scans each line as a text of its own, a script is scanned as a whole.  If no string goes
on over the end of a line the two find the same: what a session finds on its lines, put on the
numbers of the lines, is what a scan of the whole text finds.  A session drops the carriage returns
in front of a line end, which stand for nothing.

Main results:

- Theorem `scan_unitOfLine`: a line is scanned alike with and without its line end.
- Theorem `tokensFrom_wholeText`: a text of whole lines is scanned line by line.
- Theorem `session_eq_scan`: a session finds on some lines what a scan finds in their text.
-/

namespace Lox

/-! ## Units -/

/-- A line is scanned alike with and without its line end. -/
theorem scan_unitOfLine {line : String} (h : '\n' ∉ line.toList) :
    scan (unitOfLine (line ++ "\n")) = scan line := by
  have ended : unitOfLine (line ++ "\n") =
      String.ofList (stripTrailing (fun c => c == '\r' || c == '\n') line.toList) := by
    simp [unitOfLine, stripTrailing]
  obtain ⟨gap, hline, hgap⟩ :=
    exists_stripTrailing (fun c => c == '\r' || c == '\n') line.toList
  have separators : ∀ c ∈ gap, Segment.isSeparator c = true := by
    intro c hc
    have hnewline : c ≠ '\n' := by
      rintro rfl
      exact h (hline ▸ List.mem_append_right _ hc)
    have hreturn : c = '\r' := by simpa [hnewline] using hgap c hc
    subst hreturn
    rfl
  rw [ended, ← scan_append_separators separators, ← hline, String.ofList_toList]

/-! ## Texts of whole lines -/

/-- A line that a session takes as a script takes it: one line, not blank, and without an open
string. -/
structure IsWholeLine (line : String) : Prop where
  newline_not_mem : '\n' ∉ line.toList
  not_blank : isBlank line = false
  closed : ∀ report ∈ (scan line).diagnostics,
    report.message ≠ LexicalError.unterminatedString.message

/-- The text of some lines, each with its line end. -/
def wholeText (lines : List String) : String :=
  String.join (lines.map (· ++ "\n"))

/-- The text of a first line and others. -/
theorem toList_wholeText_cons (line : String) (rest : List String) :
    (wholeText (line :: rest)).toList = line.toList ++ '\n' :: (wholeText rest).toList := by
  simp [wholeText]

/-- A text of whole lines is scanned line by line. -/
theorem tokensFrom_wholeText_cons {line : String} (h : IsWholeLine line) (rest : List String)
    (place : Nat) :
    tokensFrom place (segments (wholeText (line :: rest)).toList) =
        ((scan line).tokens.map (Token.onLine place)).dropLast ++
          tokensFrom (place + 1) (segments (wholeText rest).toList) ∧
      reportsFrom place (segments (wholeText (line :: rest)).toList) =
        (scan line).diagnostics.map (Diagnostic.onLine place) ++
          reportsFrom (place + 1) (segments (wholeText rest).toList) := by
  have hclosed : ∀ part ∈ segments line.toList, part.isClosed = true :=
    isClosed_of_reports h.closed
  have hlines := lineBreaks_of_mem_segments h.newline_not_mem
  have behind : lineBehind place (segments line.toList) = place := by
    rw [lineBehind_eq (fits_segments line.toList), text_segments,
      newlines_eq_zero_iff.2 h.newline_not_mem, Nat.add_zero]
  have tokens_here : tokensFrom place (segments line.toList) =
      (scan line).tokens.map (Token.onLine place) := tokensFrom_onLine hlines 1 place
  have reports_here : reportsFrom place (segments line.toList) =
      (scan line).diagnostics.map (Diagnostic.onLine place) := reportsFrom_onLine hlines 1 place
  rw [toList_wholeText_cons, segments_append_newline hclosed, tokensFrom_append,
    reportsFrom_append, behind, tokens_here, reports_here]
  exact ⟨rfl, rfl⟩

/-- A text of whole lines is scanned line by line, apart from the numbers of the lines. -/
theorem tokensFrom_wholeText {lines : List String} (h : ∀ line ∈ lines, IsWholeLine line)
    (first : Nat) :
    ((lines.map scan).mapIdx fun place found =>
        found.tokens.dropLast.map (Token.onLine ((first + place : Nat) : Int))).flatten =
        (tokensFrom first (segments (wholeText lines).toList)).dropLast ∧
      ((lines.map scan).mapIdx fun place found =>
        found.diagnostics.map (Diagnostic.onLine ((first + place : Nat) : Int))).flatten =
        reportsFrom first (segments (wholeText lines).toList) := by
  induction lines generalizing first with
  | nil => simp [wholeText, segments, tokensFrom, reportsFrom]
  | cons line rest ih =>
      obtain ⟨htokens, hreports⟩ := tokensFrom_wholeText_cons (h line List.mem_cons_self) rest first
      obtain ⟨restTokens, restReports⟩ :=
        ih (fun other hother => h other (List.mem_cons_of_mem line hother)) (first + 1)
      rw [htokens, hreports, List.dropLast_append_of_ne_nil (tokensFrom_ne_nil _ _),
        ← restTokens, ← restReports, List.map_cons, List.mapIdx_cons, List.mapIdx_cons,
        List.flatten_cons, List.flatten_cons, List.map_dropLast]
      simp only [Nat.add_zero, Nat.add_assoc, Nat.add_comm 1, and_self]

/-- All that is found on a single line is on line one. -/
theorem line_of_mem_scan {line : String} (h : '\n' ∉ line.toList) :
    (∀ token ∈ (scan line).tokens, token.line = 1) ∧
      ∀ report ∈ (scan line).diagnostics, report.line = 1 := by
  have hlines := lineBreaks_of_mem_segments h
  have tokens_here : (scan line).tokens = (scan line).tokens.map (Token.onLine (1 : Nat)) :=
    tokensFrom_onLine hlines 1 1
  have reports_here :
      (scan line).diagnostics = (scan line).diagnostics.map (Diagnostic.onLine (1 : Nat)) :=
    reportsFrom_onLine hlines 1 1
  constructor
  · intro token htoken
    rw [tokens_here] at htoken
    rcases List.mem_map.1 htoken with ⟨_, -, rfl⟩
    rfl
  · intro report hreport
    rw [reports_here] at hreport
    rcases List.mem_map.1 hreport with ⟨_, -, rfl⟩
    rfl

/-! ## Sessions -/

/-- A whole line that is read does not end a session. -/
theorem isBlank_line {line : String} (h : isBlank line = false) (ending : String) :
    isBlank (line ++ ending) = false := by
  simp only [isBlank] at h ⊢
  simp [h]

/-- A session takes all of some lines that are not blank and answers each. -/
theorem session_of_forall_not_blank (settings : SessionSettings) (ending : Ending)
    {reads : List String} (h : ∀ read ∈ reads, isBlank read = false) :
    session settings ending reads =
      ⟨(reads.map unitOfLine).foldr
        (fun unit later => .output settings.prompt ++
          printScan settings.format settings.echo unit ++ later)
        (session settings ending []).outcome, 0⟩ := by
  induction reads with
  | nil => cases ending <;> rfl
  | cons read rest ih =>
      have later := ih fun other hother => h other (List.mem_cons_of_mem read hother)
      rw [session_of_not_blank settings ending read rest (h read List.mem_cons_self), later]
      rfl

/-- The diagnostics of a session are those of its units. -/
theorem diagnostics_session (settings : SessionSettings) (ending : Ending) {reads : List String}
    (h : ∀ read ∈ reads, isBlank read = false) :
    (session settings ending reads).outcome.diagnostics =
      ((reads.map unitOfLine).map scan).flatMap Scan.diagnostics := by
  have all_taken : reads.takeWhile (fun read => !isBlank read) = reads :=
    List.takeWhile_eq_self_iff.2 fun read hread => by rw [h read hread, Bool.not_false]
  rw [session_eq, unitsOfReads, all_taken]

/-- A session over whole lines takes them all, each as a unit on a line of its own.  Put on the
numbers of the lines, the tokens of the units without the closing ones and the reports on them are
those of a scan of the whole text; so a session has an error exactly if the whole text has one. -/
theorem session_eq_scan (settings : SessionSettings) (ending : Ending) {lines : List String}
    (h : ∀ line ∈ lines, IsWholeLine line) :
    let units := lines.map fun line => unitOfLine (line ++ "\n")
    let held := session settings ending (lines.map (· ++ "\n"))
    let whole := scan (wholeText lines)
    held.unread = 0 ∧
      held.outcome = units.foldr
        (fun unit later => .output settings.prompt ++
          printScan settings.format settings.echo unit ++ later)
        (session settings ending []).outcome ∧
      held.outcome.diagnostics = (units.map scan).flatMap Scan.diagnostics ∧
      (∀ found ∈ units.map scan, (∀ token ∈ found.tokens, token.line = 1) ∧
        ∀ report ∈ found.diagnostics, report.line = 1) ∧
      ((units.map scan).mapIdx fun place found =>
        found.tokens.dropLast.map (Token.onLine ((1 + place : Nat) : Int))).flatten =
          whole.tokens.dropLast ∧
      ((units.map scan).mapIdx fun place found =>
        found.diagnostics.map (Diagnostic.onLine ((1 + place : Nat) : Int))).flatten =
          whole.diagnostics ∧
      (held.outcome.diagnostics = [] ↔ whole.diagnostics = []) := by
  intro units held whole
  have hblank : ∀ read ∈ lines.map (· ++ "\n"), isBlank read = false := by
    intro read hread
    rcases List.mem_map.1 hread with ⟨line, hline, rfl⟩
    exact isBlank_line (h line hline).not_blank "\n"
  have hunits : (lines.map (· ++ "\n")).map unitOfLine = units := List.map_map
  have hscans : units.map scan = lines.map scan := by
    rw [List.map_map]
    exact List.map_congr_left fun line hline => scan_unitOfLine (h line hline).newline_not_mem
  have hheld := session_of_forall_not_blank settings ending hblank
  have hdiagnostics := diagnostics_session settings ending hblank
  rw [hunits] at hheld hdiagnostics
  obtain ⟨htokens, hreports⟩ := tokensFrom_wholeText h 1
  rw [← hscans] at htokens hreports
  refine ⟨congrArg Session.unread hheld, congrArg Session.outcome hheld, hdiagnostics, ?_, htokens,
    hreports, ?_⟩
  · rw [hscans]
    intro found hfound
    rcases List.mem_map.1 hfound with ⟨line, hline, rfl⟩
    exact line_of_mem_scan (h line hline).newline_not_mem
  · -- each unit has as many reports on the number of its line as it has on line one
    change (session settings ending _).outcome.diagnostics = [] ↔ reportsFrom 1 _ = []
    rw [hdiagnostics, ← hreports, List.flatMap_eq_nil_iff, List.flatten_eq_nil_iff]
    constructor
    · intro hnone reports hmem
      rcases List.mem_mapIdx.1 hmem with ⟨place, hplace, rfl⟩
      rw [hnone _ (List.getElem_mem hplace), List.map_nil]
    · intro hnone found hfound
      rcases List.getElem_of_mem hfound with ⟨place, hplace, rfl⟩
      have here := hnone _ (List.mem_mapIdx.2 ⟨place, hplace, rfl⟩)
      exact List.map_eq_nil_iff.1 here

/-- Carriage returns in front of a line end, a comment that takes one in, a point behind digits, an
operator that could go on, and an unknown character. -/
theorem session_eq_scan_five_lines :
    let lines := ["1.\r", "!\r\r", "// \"x\r", "@", "\"a\" ="]
    (∀ line ∈ lines, IsWholeLine line) ∧
      (session ⟨.text, "> ", .plain⟩ .endOfInput (lines.map (· ++ "\n"))).unread = 0 ∧
      (scan (wholeText lines)).diagnostics = [⟨4, "Unexpected character."⟩] ∧
      ((session ⟨.text, "> ", .plain⟩ .endOfInput
        (lines.map (· ++ "\n"))).outcome.diagnostics = [] ↔
          (scan (wholeText lines)).diagnostics = []) := by
  intro lines
  have hlines : ∀ line ∈ lines, IsWholeLine line := by
    have newlines : ∀ line ∈ lines, '\n' ∉ line.toList := by decide +kernel
    have blanks : ∀ line ∈ lines, isBlank line = false := by decide +kernel
    have closed : ∀ line ∈ lines, ∀ report ∈ (scan line).diagnostics,
        report.message ≠ LexicalError.unterminatedString.message := by decide +kernel
    intro line hline
    exact ⟨newlines line hline, blanks line hline, closed line hline⟩
  obtain ⟨hunread, -, -, -, -, -, herror⟩ :=
    session_eq_scan ⟨.text, "> ", .plain⟩ .endOfInput hlines
  exact ⟨hlines, hunread, by decide +kernel, herror⟩

end Lox
