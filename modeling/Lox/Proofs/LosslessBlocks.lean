import Lox.Proofs.ContextBlock
import Lox.Proofs.RejoinedLines
import Lox.Proofs.SessionCourse

/-!
# What a block tells

A block sets nothing off: the message, the name of the source and the quoted line stand in it as
they are, whatever colons, bars and arrows they hold.  It tells them all the same if the message and
the name are on one line each.  Then a block has five lines, and the line number is as long as the
empty gutter is wide, so it is known where the number ends on the quoted line.  The number in turn
ends the line of the place and leaves the name.

Blocks one behind the other are told apart by counting lines.  So the echoes of the reports on a
text tell the reports.

Main results:

- Theorem `Diagnostic.splitLines_block`: a block has five lines.
- Theorem `Diagnostic.blockLines_eq_iff`: what the lines of a block tell.
- Theorem `Diagnostic.eq_of_blocks`: what blocks one behind the other tell.
- Theorem `Diagnostic.formatContext_lossless`: blocks are aligned and tell all they were made of.
-/

namespace Lox

/-- A mark stands in a column of a line and nowhere in front of it. -/
def StandsAt (column : ℕ) (mark line : List Char) : Prop :=
  mark <+: line.drop column ∧ ∀ before < column, ¬mark <+: line.drop before

/-- A mark stands behind what does not hold its first character. -/
theorem standsAt_append {c : Char} {front : List Char} (hfront : c ∉ front)
    (mark back : List Char) : StandsAt front.length (c :: mark) (front ++ (c :: mark ++ back)) := by
  constructor
  · rw [List.drop_left]
    exact List.prefix_append (c :: mark) back
  · intro before hbefore hbegins
    rw [List.drop_append_of_le_length (Nat.le_of_lt hbefore), List.drop_eq_getElem_cons hbefore,
      List.cons_append, List.cons_prefix_cons] at hbegins
    exact hfront (hbegins.1 ▸ List.getElem_mem hbefore)

/-- The text of an integer tells the integer. -/
theorem toString_injective : Function.Injective (toString : ℤ → String) := by
  intro first second h
  have read := Json.number?_integer first
  rw [h, Json.number?_integer] at read
  cases read
  rfl

namespace Diagnostic

/-! ## One block -/

/-- The lines of a block whose message and name are on one line each. -/
def blockLines (d : Diagnostic) (source filename : String) : List (List Char) :=
  ["error: ".toList ++ d.message.toList, d.placeLine filename, d.gutter ++ ['|'],
    d.quoteLine source, d.gutter ++ ['|']]

section

variable {d other : Diagnostic} {filename otherName : String}

/-- Only blanks stand in front of the bars and the arrow. -/
theorem not_mem_gutter {c : Char} (hc : c ≠ ' ') : c ∉ d.gutter :=
  fun hmem => hc (List.eq_of_mem_replicate hmem)

/-- A block has five lines if its message and its name are on one line each. -/
theorem splitLines_block (hmessage : '\n' ∉ d.message.toList) (hname : '\n' ∉ filename.toList)
    (source : String) :
    splitLines (d.formatContext source filename).toList = d.blockLines source filename := by
  have message : '\n' ∉ "error: ".toList ++ d.message.toList := by
    simpa using hmessage
  have place : '\n' ∉ d.placeLine filename := by
    have number : '\n' ∉ (toString d.line).toList := not_mem_toString (by decide) d.line
    simp only [placeLine, List.mem_append, List.mem_cons, not_or]
    exact ⟨not_mem_gutter (by decide), by simp, hname, by decide, number⟩
  rw [splitLines_formatContext, splitLines, splitLines, pieces_of_not_mem message,
    pieces_of_not_mem place]
  rfl

/-- The lines of a block tell its message, its name, its line and what it quotes. -/
theorem blockLines_eq_iff {source otherSource : String} :
    d.blockLines source filename = other.blockLines otherSource otherName ↔
      d.message = other.message ∧ filename = otherName ∧ d.line = other.line ∧
        lineText source d.line = lineText otherSource other.line := by
  constructor
  · intro h
    simp only [blockLines, List.cons.injEq, and_true] at h
    obtain ⟨message, place, bar, quoted, -⟩ := h
    have gutters : d.gutter = other.gutter := List.append_cancel_right bar
    -- the gutter tells how long the number is, so it is known where the number ends
    have widths : (toString d.line).toList.length = (toString other.line).toList.length := by
      have spaces := congrArg List.length gutters
      simp only [gutter, List.length_replicate, Nat.add_right_cancel_iff] at spaces
      rwa [String.length_toList, String.length_toList]
    obtain ⟨number, shown⟩ := List.append_inj quoted widths
    have line : d.line = other.line := toString_injective (String.toList_inj.1 number)
    rw [placeLine, placeLine, gutters, number, List.append_cancel_left_eq,
      List.append_cancel_left_eq] at place
    have name := List.append_cancel_right place
    exact ⟨String.toList_inj.1 (List.append_cancel_left message), String.toList_inj.1 name, line,
      String.toList_inj.1 (List.append_cancel_left shown)⟩
  · rintro ⟨message, rfl, line, shown⟩
    rw [blockLines, blockLines, message, placeLine, placeLine, gutter, gutter, quoteLine, quoteLine,
      shown, line]

/-- The column of the bars and of the arrow of a block, behind the line number and one blank. -/
def barColumn (d : Diagnostic) : ℕ :=
  (toString d.line).length + 1

/-- The lines of a block are aligned: five lines, of which the second has the arrow and the other
three below the message have a bar, all in one column. -/
def IsAligned (d : Diagnostic) (lines : List (List Char)) : Prop :=
  ∃ top place upper quoted lower, lines = [top, place, upper, quoted, lower] ∧
    StandsAt d.barColumn "-->".toList place ∧ StandsAt d.barColumn ['|'] upper ∧
    StandsAt d.barColumn ['|'] quoted ∧ StandsAt d.barColumn ['|'] lower

/-- A block is aligned. -/
theorem isAligned_blockLines (d : Diagnostic) (source filename : String) :
    d.IsAligned (d.blockLines source filename) := by
  have width : d.gutter.length = d.barColumn := List.length_replicate ..
  have numberWidth : ((toString d.line).toList ++ [' ']).length = d.barColumn := by
    rw [List.length_append, String.length_toList]
    rfl
  have arrow : StandsAt d.barColumn "-->".toList (d.placeLine filename) := by
    rw [← width]
    exact standsAt_append (not_mem_gutter (by decide)) ['-', '>'] _
  have bar : StandsAt d.barColumn ['|'] (d.gutter ++ ['|']) := by
    rw [← width]
    exact standsAt_append (not_mem_gutter (by decide)) [] []
  have quoted : StandsAt d.barColumn ['|'] (d.quoteLine source) := by
    have number : '|' ∉ (toString d.line).toList ++ [' '] := by
      have digits : '|' ∉ (toString d.line).toList := not_mem_toString (by decide) d.line
      simpa using digits
    have spelled : d.quoteLine source = ((toString d.line).toList ++ [' ']) ++
        ('|' :: [] ++ ' ' :: (lineText source d.line).toList) := by
      simp [quoteLine]
    rw [← numberWidth, spelled]
    exact standsAt_append number [] _
  exact ⟨_, _, _, _, _, rfl, arrow, bar, quoted, bar⟩

/-- The lines of a text that is ended by a newline, and those of the text behind it. -/
theorem splitLines_append_newline (text behind : String) :
    splitLines (text ++ "\n" ++ behind).toList =
      splitLines text.toList ++ splitLines behind.toList := by
  have spelled : (text ++ "\n" ++ behind).toList = text.toList ++ '\n' :: behind.toList := by
    simp
  rw [spelled]
  exact pieces_append_separator '\n' _ _

/-- Blocks one behind the other tell the reports that they are about. -/
theorem eq_of_blocks {source otherSource : String} (hname : '\n' ∉ filename.toList)
    (hotherName : '\n' ∉ otherName.toList) {reports others : List Diagnostic}
    (hreports : ∀ report ∈ reports, '\n' ∉ report.message.toList)
    (hothers : ∀ report ∈ others, '\n' ∉ report.message.toList)
    (h : String.join (reports.map fun report => report.formatContext source filename ++ "\n") =
      String.join (others.map fun report => report.formatContext otherSource otherName ++ "\n")) :
    reports = others := by
  induction reports generalizing others with
  | nil =>
      rw [List.map_nil, String.join_nil, eq_comm, join_eq_empty_iff] at h
      exact h.symm
  | cons report rest ih =>
      cases others with
      | nil =>
          rw [List.map_nil, String.join_nil, join_eq_empty_iff] at h
          cases h
      | cons next more =>
          have here := splitLines_block (hreports report List.mem_cons_self) hname source
          have there := splitLines_block (hothers next List.mem_cons_self) hotherName otherSource
          -- the first five lines are those of the first block, the others are those behind it
          have lines := congrArg (fun text => splitLines text.toList) h
          simp only [List.map_cons, String.join_cons, splitLines_append_newline, here,
            there] at lines
          obtain ⟨first, behind⟩ := List.append_inj lines rfl
          obtain ⟨message, -, line, -⟩ := blockLines_eq_iff.1 first
          have later := ih (fun report hreport => hreports report (List.mem_cons_of_mem _ hreport))
            (fun report hreport => hothers report (List.mem_cons_of_mem _ hreport))
            (String.toList_inj.1 (splitLines_injective behind))
          have same : report = next := by
            cases report
            cases next
            exact congrArg₂ Diagnostic.mk line message
          rw [same, later]

end

end Diagnostic

/-! ## Echoes -/

/-- A report on a segment is about a lexical error. -/
theorem Segment.exists_error_of_report? {part : Segment} {line : ℤ} {report : Diagnostic}
    (h : part.report? line = some report) :
    ∃ error : LexicalError, report.message = error.message := by
  cases part with
  | unexpected c =>
      cases h
      exact ⟨.unexpectedCharacter, rfl⟩
  | unterminated body =>
      cases h
      exact ⟨.unterminatedString, rfl⟩
  | _ => cases h

/-- A report on some segments is about a lexical error. -/
theorem exists_error_of_mem_reportsFrom {line : ℕ} {parts : List Segment} {report : Diagnostic}
    (h : report ∈ reportsFrom line parts) :
    ∃ error : LexicalError, report.message = error.message := by
  induction parts generalizing line with
  | nil => cases h
  | cons part rest ih =>
      rw [reportsFrom, List.mem_append, Option.mem_toList] at h
      rcases h with hhere | hlater
      · exact Segment.exists_error_of_report? hhere
      · exact ih hlater

/-- The message of a report on a text is on one line. -/
theorem newline_not_mem_message {text : String} {report : Diagnostic}
    (h : report ∈ (scan text).diagnostics) : '\n' ∉ report.message.toList := by
  obtain ⟨error, herror⟩ := exists_error_of_mem_reportsFrom h
  rw [herror]
  cases error <;> decide

/-- The echoes of the reports on a text, one behind the other. -/
theorem merged_collect_quoting (source filename : String) (reports : List Diagnostic) :
    ((Collector.ofEcho (.quoting source filename)).collect reports).2.merged =
      String.join (reports.map fun report => report.formatContext source filename ++ "\n") := by
  rw [Collector.collect, Collector.ofEcho, Echo.merged_writes, Echo.filterMap_quoting]

/-- Blocks are aligned and tell all that they were made of, whatever line they are about, if the
message and the name are on one line each.  A block has five lines with the arrow and the bars in
one column, the one behind the line number and a blank.  Two blocks are the same only if they have
the same message, the same name, the same line and the same quoted line.  What is echoed in blocks
while a text is scanned tells the reports on the text, in order. -/
theorem Diagnostic.formatContext_lossless {d other : Diagnostic} {filename otherName : String}
    (hmessage : '\n' ∉ d.message.toList) (hother : '\n' ∉ other.message.toList)
    (hname : '\n' ∉ filename.toList) (hotherName : '\n' ∉ otherName.toList)
    (source otherSource : String) :
    d.IsAligned (splitLines (d.formatContext source filename).toList) ∧
      (d.formatContext source filename = other.formatContext otherSource otherName ↔
        d.message = other.message ∧ filename = otherName ∧ d.line = other.line ∧
          lineText source d.line = lineText otherSource other.line) ∧
      ∀ text otherText : String,
        ((Collector.ofEcho (.quoting source filename)).collect (scan text).diagnostics).2.merged =
            ((Collector.ofEcho (.quoting otherSource otherName)).collect
              (scan otherText).diagnostics).2.merged →
          (scan text).diagnostics = (scan otherText).diagnostics := by
  have here := splitLines_block hmessage hname source
  have there := splitLines_block hother hotherName otherSource
  refine ⟨?_, ?_, ?_⟩
  · rw [here]
    exact d.isAligned_blockLines source filename
  · rw [← blockLines_eq_iff, ← here, ← there, splitLines_injective.eq_iff, String.toList_inj]
  · intro text otherText h
    rw [merged_collect_quoting, merged_collect_quoting] at h
    exact eq_of_blocks hname hotherName (fun _ => newline_not_mem_message)
      (fun _ => newline_not_mem_message) h

/-- A name that ends like a place, and a block about a line in front of the text. -/
theorem Diagnostic.formatContext_lossless_imitation :
    let d : Diagnostic := ⟨-12, "a | b"⟩
    let other : Diagnostic := ⟨2, "a | b"⟩
    d.IsAligned (splitLines (d.formatContext "1 | x" "s --> t:1").toList) ∧
      d.formatContext "1 | x" "s --> t:1" ≠ other.formatContext "1 | x" "s --> t:-1" := by
  intro d other
  have hmessage : '\n' ∉ d.message.toList := by decide
  have hother : '\n' ∉ other.message.toList := by decide
  obtain ⟨aligned, same, -⟩ := formatContext_lossless hmessage hother
    (show '\n' ∉ "s --> t:1".toList by decide) (show '\n' ∉ "s --> t:-1".toList by decide)
    "1 | x" "1 | x"
  refine ⟨aligned, fun h => ?_⟩
  have line : d.line = other.line := (same.1 h).2.2.1
  cases line

end Lox
