import Lox.Session
import Mathlib.Data.List.Forall2

/-!
# The course of a session

A session takes its reads up to the first blank one and answers each by itself.  All it writes for a
read stands between two prompts: first the echoes of the reports, then the tokens.  It writes one
prompt more than it takes reads, and a newline behind it only if it is interrupted.

Main results:

- Theorem `session_eq`: all that a session writes, reports and leaves unread.
- Theorem `session_take_append`: a session never sees what stands behind a blank read.
- Theorem `session_course`: the same on each channel, and on both together.
-/

namespace Lox

/-! ## Channels -/

namespace Transcript

/-- A write on a channel and others. -/
theorem on_cons_self (channel : Channel) (text : String) (rest : Transcript) :
    on channel (⟨channel, text⟩ :: rest) = text ++ on channel rest := by
  simp [on]

/-- A write on another channel and others. -/
theorem on_cons_of_ne {channel other : Channel} (h : other ≠ channel) (text : String)
    (rest : Transcript) : on channel (⟨other, text⟩ :: rest) = on channel rest := by
  simp [on, h]

/-- Nothing is on a channel if nothing is written. -/
theorem on_nil (channel : Channel) : on channel [] = "" := rfl

/-- A channel of transcripts one behind the other. -/
theorem on_flatMap {α : Type} (channel : Channel) (f : α → Transcript) (parts : List α) :
    on channel (parts.flatMap f) = String.join (parts.map fun part => on channel (f part)) := by
  induction parts with
  | nil => rfl
  | cons part rest ih => rw [List.flatMap_cons, on_append, ih, List.map_cons, String.join_cons]

/-- A write and others, on both channels. -/
theorem merged_cons (write : Write) (rest : Transcript) :
    merged (write :: rest) = write.text ++ merged rest := by
  simp [merged]

/-- Both channels of transcripts one behind the other. -/
theorem merged_flatMap {α : Type} (f : α → Transcript) (parts : List α) :
    merged (parts.flatMap f) = String.join (parts.map fun part => merged (f part)) := by
  induction parts with
  | nil => rfl
  | cons part rest ih =>
      rw [List.flatMap_cons, merged_append, ih, List.map_cons, String.join_cons]

end Transcript

namespace Echo

/-- Echoes are on the error channel, one behind the other. -/
theorem on_errors_writes (echo : Echo) (reports : List Diagnostic) :
    (echo.writes reports).on .errors = String.join (reports.filterMap echo.text?) := by
  induction reports with
  | nil => rfl
  | cons report rest ih =>
      cases htext : echo.text? report with
      | none => simpa [writes, htext] using ih
      | some text =>
          rw [List.filterMap_cons_some htext, String.join_cons, ← ih]
          simp [writes, htext, Transcript.on_cons_self]

/-- No echo is on the output channel. -/
theorem on_output_writes (echo : Echo) (reports : List Diagnostic) :
    (echo.writes reports).on .output = "" := by
  induction reports with
  | nil => rfl
  | cons report rest ih =>
      cases htext : echo.text? report with
      | none => simpa [writes, htext] using ih
      | some text =>
          simpa [writes, htext, Transcript.on_cons_of_ne] using ih

/-- Nothing but the echoes is written for reports. -/
theorem merged_writes (echo : Echo) (reports : List Diagnostic) :
    (echo.writes reports).merged = String.join (reports.filterMap echo.text?) := by
  induction reports with
  | nil => rfl
  | cons report rest ih =>
      cases htext : echo.text? report with
      | none => simpa [writes, htext] using ih
      | some text =>
          rw [List.filterMap_cons_some htext, String.join_cons, ← ih]
          simp [writes, htext, Transcript.merged_cons]

/-- Reports with the lines they are about are echoed in full. -/
theorem filterMap_quoting (source name : String) (reports : List Diagnostic) :
    reports.filterMap (quoting source name).text? =
      reports.map fun report => report.formatContext source name ++ "\n" :=
  congrFun (List.filterMap_eq_map (f := fun report =>
    Diagnostic.formatContext report source name ++ "\n")) reports

/-- Reports on lines of their own are echoed in full. -/
theorem filterMap_plain (reports : List Diagnostic) :
    reports.filterMap plain.text? = reports.map fun report => report.format ++ "\n" :=
  congrFun (List.filterMap_eq_map (f := fun report => Diagnostic.format report ++ "\n")) reports

end Echo

/-- Reports that end in a newline are an empty text only if there are none. -/
theorem join_eq_empty_iff {α : Type} (render : α → String) (reports : List α) :
    String.join (reports.map fun report => render report ++ "\n") = "" ↔ reports = [] := by
  cases reports with
  | nil => simp
  | cons report rest => simp [String.append_eq_empty_iff]

/-- The reports on a unit are on the error channel. -/
theorem on_errors_printScan (format : DumpFormat) (echo : Echo) (source : String) :
    (printScan format echo source).transcript.on .errors =
      String.join ((scan source).diagnostics.filterMap echo.text?) := by
  rw [printScan, Transcript.on_append, Echo.on_errors_writes,
    Transcript.on_cons_of_ne (by decide), Transcript.on_nil, String.append_empty]

/-- The tokens of a unit are on the output channel. -/
theorem on_output_printScan (format : DumpFormat) (echo : Echo) (source : String) :
    (printScan format echo source).transcript.on .output = dump format (scan source).tokens := by
  rw [printScan, Transcript.on_append, Echo.on_output_writes, Transcript.on_cons_self,
    Transcript.on_nil, String.append_empty, String.empty_append]

/-- The reports on a unit are written in front of its tokens. -/
theorem merged_printScan (format : DumpFormat) (echo : Echo) (source : String) :
    (printScan format echo source).transcript.merged =
      String.join ((scan source).diagnostics.filterMap echo.text?) ++
        dump format (scan source).tokens := by
  rw [printScan, Transcript.merged_append, Echo.merged_writes, Transcript.merged_cons]
  exact congrArg _ String.append_empty

/-! ## Units -/

/-- A unit of source in a read: the read without the carriage returns and newlines at its end. -/
structure IsUnitOf (read unit : String) : Prop where
  exists_ends : ∃ ends, read.toList = unit.toList ++ ends ∧ ∀ c ∈ ends, c = '\r' ∨ c = '\n'
  last_ne : ∀ c ∈ unit.toList.getLast?, c ≠ '\r' ∧ c ≠ '\n'

/-- Every read has exactly one unit. -/
theorem isUnitOf_iff {read unit : String} : IsUnitOf read unit ↔ unitOfLine read = unit := by
  have stripped : unitOfLine read = unit ↔
      stripTrailing (fun c => c == '\r' || c == '\n') read.toList = unit.toList := by
    rw [← String.toList_inj, unitOfLine, String.toList_ofList]
  rw [stripped, stripTrailing_eq_iff]
  simp only [Bool.or_eq_true, beq_iff_eq, Bool.or_eq_false_iff, beq_eq_false_iff_ne]
  exact ⟨fun h => ⟨h.exists_ends, h.last_ne⟩, fun h => ⟨h.1, h.2⟩⟩

/-- The units of source in the reads of a session: those in front of the first blank read. -/
def unitsOfReads (reads : List String) : List String :=
  (reads.takeWhile fun read => !isBlank read).map unitOfLine

/-- As many units as there are reads in front of the first blank one. -/
theorem length_unitsOfReads (reads : List String) :
    (unitsOfReads reads).length = reads.findIdx isBlank := by
  rw [unitsOfReads, List.length_map, List.takeWhile_eq_take_findIdx_not, List.length_take]
  simp only [Bool.not_not]
  exact Nat.min_eq_left List.findIdx_le_length

/-! ## Sessions -/

/-- What a session writes for a unit: the prompt, the echoes and the tokens. -/
def SessionSettings.writesFor (settings : SessionSettings) (unit : String) : Transcript :=
  ⟨.output, settings.prompt⟩ :: (printScan settings.format settings.echo unit).transcript

/-- What a session writes at its end: the prompt, and a newline if no read was blank and the reader
is interrupted. -/
def SessionSettings.lastWrites (settings : SessionSettings) (ending : Ending)
    (reads : List String) : Transcript :=
  ⟨.output, settings.prompt⟩ ::
    if reads.findIdx isBlank = reads.length ∧ ending = .interrupt then [⟨.output, "\n"⟩] else []

/-- All that a session writes, reports and leaves unread. -/
theorem session_eq (settings : SessionSettings) (ending : Ending) (reads : List String) :
    session settings ending reads =
      ⟨⟨(unitsOfReads reads).flatMap settings.writesFor ++ settings.lastWrites ending reads,
          ((unitsOfReads reads).map scan).flatMap Scan.diagnostics⟩,
        (reads.drop (reads.findIdx isBlank + 1)).length⟩ := by
  induction reads with
  | nil => cases ending <;> rfl
  | cons read rest ih =>
      cases hblank : isBlank read with
      | true =>
          rw [session_of_blank settings ending read rest hblank]
          simp [unitsOfReads, SessionSettings.lastWrites, List.findIdx_cons, hblank,
            Outcome.output]
      | false =>
          have units : unitsOfReads (read :: rest) = unitOfLine read :: unitsOfReads rest := by
            simp [unitsOfReads, hblank]
          have place : (read :: rest).findIdx isBlank = rest.findIdx isBlank + 1 := by
            simp [List.findIdx_cons, hblank]
          have last : settings.lastWrites ending (read :: rest) =
              settings.lastWrites ending rest := by
            simp [SessionSettings.lastWrites, place]
          rw [session_of_not_blank settings ending read rest hblank, ih, units, place, last,
            List.flatMap_cons, List.append_assoc]
          rfl

/-! ## Channels of a session -/

/-- Texts of texts, one behind the other. -/
theorem join_flatMap {α : Type} (f : α → List String) (parts : List α) :
    String.join (parts.flatMap f) = String.join (parts.map fun part => String.join (f part)) := by
  induction parts with
  | nil => rfl
  | cons part rest ih =>
      rw [List.flatMap_cons, String.join_append, ih, List.map_cons, String.join_cons]

namespace SessionSettings

variable (settings : SessionSettings) (unit : String)

/-- The prompt and the tokens of a unit are on the output channel. -/
theorem on_output_writesFor :
    (settings.writesFor unit).on .output =
      settings.prompt ++ dump settings.format (scan unit).tokens := by
  rw [writesFor, Transcript.on_cons_self, on_output_printScan]

/-- The reports on a unit are on the error channel. -/
theorem on_errors_writesFor :
    (settings.writesFor unit).on .errors =
      String.join ((scan unit).diagnostics.filterMap settings.echo.text?) := by
  rw [writesFor, Transcript.on_cons_of_ne (by decide), on_errors_printScan]

/-- The reports on a unit stand between the prompt and the tokens. -/
theorem merged_writesFor :
    (settings.writesFor unit).merged =
      settings.prompt ++ (String.join ((scan unit).diagnostics.filterMap settings.echo.text?) ++
        dump settings.format (scan unit).tokens) := by
  rw [writesFor, Transcript.merged_cons, merged_printScan]

variable (ending : Ending) (reads : List String)

/-- What stands behind the last prompt: a newline if no read was blank and the reader is
interrupted. -/
def closingText : String :=
  if reads.findIdx isBlank = reads.length ∧ ending = .interrupt then "\n" else ""

/-- The end of a session is on the output channel. -/
theorem on_output_lastWrites :
    (settings.lastWrites ending reads).on .output =
      settings.prompt ++ closingText ending reads := by
  unfold lastWrites closingText
  split <;> simp [Transcript.on]

/-- Nothing of the end of a session is on the error channel. -/
theorem on_errors_lastWrites : (settings.lastWrites ending reads).on .errors = "" := by
  unfold lastWrites
  split <;> simp [Transcript.on]

/-- The end of a session on both channels. -/
theorem merged_lastWrites :
    (settings.lastWrites ending reads).merged = settings.prompt ++ closingText ending reads := by
  unfold lastWrites closingText
  split <;> simp [Transcript.merged]

end SessionSettings

variable (settings : SessionSettings) (ending : Ending) (reads : List String)

/-- On the output channel each unit has the prompt and its tokens. -/
theorem on_output_session :
    (session settings ending reads).outcome.transcript.on .output =
      String.join ((unitsOfReads reads).map fun unit =>
        settings.prompt ++ dump settings.format (scan unit).tokens) ++ settings.prompt ++
          SessionSettings.closingText ending reads := by
  rw [session_eq, Transcript.on_append, Transcript.on_flatMap, settings.on_output_lastWrites,
    String.append_assoc]
  simp only [settings.on_output_writesFor]

/-- On the error channel are the echoes of all reports. -/
theorem on_errors_session :
    (session settings ending reads).outcome.transcript.on .errors =
      String.join ((session settings ending reads).outcome.diagnostics.filterMap
        settings.echo.text?) := by
  rw [session_eq, Transcript.on_append, Transcript.on_flatMap, settings.on_errors_lastWrites,
    String.append_empty, List.filterMap_flatMap, join_flatMap, List.map_map]
  simp only [settings.on_errors_writesFor]
  rfl

/-- On both channels together each unit has the prompt, its echoes and its tokens. -/
theorem merged_session :
    (session settings ending reads).outcome.transcript.merged =
      String.join ((unitsOfReads reads).map fun unit =>
        settings.prompt ++ (String.join ((scan unit).diagnostics.filterMap settings.echo.text?) ++
          dump settings.format (scan unit).tokens)) ++ settings.prompt ++
            SessionSettings.closingText ending reads := by
  rw [session_eq, Transcript.merged_append, Transcript.merged_flatMap,
    settings.merged_lastWrites, String.append_assoc]
  simp only [settings.merged_writesFor]

/-- The units are the reads in front of the first blank one. -/
theorem forall₂_isUnitOf :
    List.Forall₂ IsUnitOf (reads.take (reads.findIdx isBlank)) (unitsOfReads reads) := by
  rw [unitsOfReads, List.takeWhile_eq_take_findIdx_not]
  simp only [Bool.not_not]
  exact List.forall₂_map_right_iff.2 (List.forall₂_same.2 fun _ _ => isUnitOf_iff.2 rfl)

/-- A session never sees what stands behind a blank read, nor how the input stops. -/
theorem session_take_append {settings : SessionSettings} {reads : List String}
    (h : reads.findIdx isBlank < reads.length) (ending other : Ending) (others : List String) :
    session settings other (reads.take (reads.findIdx isBlank + 1) ++ others) =
      ⟨(session settings ending reads).outcome, others.length⟩ := by
  induction reads with
  | nil => cases h
  | cons read rest ih =>
      cases hblank : isBlank read with
      | true =>
          have place : (read :: rest).findIdx isBlank = 0 := by simp [List.findIdx_cons, hblank]
          rw [place, session_of_blank settings ending read rest hblank]
          exact session_of_blank settings other read others hblank
      | false =>
          have place : (read :: rest).findIdx isBlank = rest.findIdx isBlank + 1 := by
            simp [List.findIdx_cons, hblank]
          rw [place] at h ⊢
          have later := ih (Nat.lt_of_succ_lt_succ h)
          rw [List.take_succ_cons, List.cons_append, session_of_not_blank settings _ read _ hblank,
            session_of_not_blank settings ending read rest hblank, later]

/-- The course of a session.  It takes the reads in front of the first blank one, and each read is a
unit without the carriage returns and newlines at its end.  It reports what a scan of each unit
reports.  It writes for each unit the prompt and the tokens and behind them the prompt once more,
with a newline exactly if it took all reads and is interrupted; the echoes of a unit stand between
its prompt and its tokens.  The reads behind a blank one are left unread, and nothing depends on
them. -/
theorem session_course :
    let place := reads.findIdx isBlank
    let held := session settings ending reads
    let closing := if place = reads.length ∧ ending = .interrupt then "\n" else ""
    (∃ units : List String,
      List.Forall₂ IsUnitOf (reads.take place) units ∧
        held.outcome.diagnostics = units.flatMap (fun unit => (scan unit).diagnostics) ∧
        held.outcome.transcript.on .output =
          String.join (units.map fun unit =>
            settings.prompt ++ dump settings.format (scan unit).tokens) ++
              settings.prompt ++ closing ∧
        held.outcome.transcript.on .errors =
          String.join (held.outcome.diagnostics.filterMap settings.echo.text?) ∧
        held.outcome.transcript.merged =
          String.join (units.map fun unit =>
            settings.prompt ++
              (String.join ((scan unit).diagnostics.filterMap settings.echo.text?) ++
                dump settings.format (scan unit).tokens)) ++ settings.prompt ++ closing) ∧
      held.unread = (reads.drop (place + 1)).length ∧
      (place < reads.length → ∀ (other : Ending) (others : List String),
        session settings other (reads.take (place + 1) ++ others) =
          ⟨held.outcome, others.length⟩) := by
  intro place held closing
  refine ⟨⟨unitsOfReads reads, forall₂_isUnitOf reads, ?_, on_output_session settings ending reads,
    on_errors_session settings ending reads, merged_session settings ending reads⟩, ?_, ?_⟩
  · rw [show held = session settings ending reads from rfl, session_eq, List.flatMap_map]
  · rw [show held = session settings ending reads from rfl, session_eq]
  · intro hblank
    exact session_take_append hblank ending

/-- A unit over two lines with carriage returns at its end, an open string, a blank read and one
that is left unread, with the reports among the tokens. -/
theorem session_course_unread :
    let settings : SessionSettings := ⟨.text, "> ", .plain⟩
    let reads := ["a\nb\r\r\n", "\"\r", " \t", "c"]
    let held := session settings .interrupt reads
    reads.findIdx isBlank = 2 ∧ held.unread = 1 ∧
      held.outcome.transcript.on .errors = "[line 1] Error: Unterminated string.\n" ∧
      session settings .endOfInput (reads.take 3 ++ ["d", "e"]) = ⟨held.outcome, 2⟩ := by
  intro settings reads held
  have place : reads.findIdx isBlank = 2 := by decide +kernel
  have reports : held.outcome.diagnostics = [⟨1, "Unterminated string."⟩] := by decide +kernel
  obtain ⟨⟨_, -, -, -, herrors, -⟩, hunread, hlater⟩ := session_course settings .interrupt reads
  rw [place] at hunread hlater
  refine ⟨place, hunread, ?_, hlater (by decide) .endOfInput ["d", "e"]⟩
  rw [herrors, reports]
  decide +kernel

end Lox
