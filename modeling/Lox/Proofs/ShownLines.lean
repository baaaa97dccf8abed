import Lox.Proofs.Layout
import Mathlib.Data.List.DropRight

/-!
# The line that is shown

A scan counts lines as it goes, one for each newline it reads.  A line is shown by cutting the text
at its newlines and dropping the carriage returns at the end of the piece.  The two agree: what is
found at a place stands on the shown line in the column of the place, and a string over several
lines stands there up to its first newline.

Main results:

- Theorem `getElem?_splitLines`: the line of a place is what stands around the place between two
  newlines.
- Theorem `prefix_lineText`: what starts at a place is shown in its column.
- Theorem `isLineOf_of_mem_scan`: every token and every report is on a line of the text.
- Theorem `Cursor.isChain_showsLine`: the line shown for what a pass finds is the line it read.
-/

namespace Lox

/-! ## Lines around a place -/

/-- The text behind the last newline. -/
def lastLine (text : List Char) : List Char :=
  text.rtakeWhile (· != '\n')

/-- The text in front of the first newline. -/
def firstLine (text : List Char) : List Char :=
  text.takeWhile (· != '\n')

/-- The column of a place: how many characters stand between the last newline in front of it and the
place. -/
def column (text : List Char) (place : Nat) : Nat :=
  (lastLine (text.take place)).length

/-- A number is that of a line of a text. -/
def IsLineOf (source : String) (line : Int) : Prop :=
  1 ≤ line ∧ line ≤ (splitLines source.toList).length

/-- The first line of a text is what stands in front of its first newline. -/
theorem getElem?_splitLines_zero (text : List Char) :
    (splitLines text)[0]? = some (firstLine text) := by
  have inside : '\n' ∉ firstLine text := by
    intro hnewline
    simpa using List.mem_takeWhile_imp hnewline
  have whole : firstLine text ++ text.dropWhile (· != '\n') = text :=
    List.takeWhile_append_dropWhile
  have pieces_eq : ∃ others, splitLines text = firstLine text :: others := by
    cases hrest : text.dropWhile (· != '\n') with
    | nil =>
        rw [hrest, List.append_nil] at whole
        exact ⟨[], by rw [whole] at inside ⊢; exact pieces_of_not_mem inside⟩
    | cons c back =>
        have stop := Segment.head?_dropWhile_false (· != '\n') text c (by simp [hrest])
        obtain rfl : c = '\n' := by simpa using stop
        rw [hrest] at whole
        refine ⟨splitLines back, ?_⟩
        calc
          splitLines text = splitLines (firstLine text ++ '\n' :: back) := by rw [whole]
          _ = firstLine text :: splitLines back := pieces_append_cons back inside
  rcases pieces_eq with ⟨others, pieces_eq⟩
  rw [pieces_eq, List.getElem?_cons_zero]

/-- The line of a place is what stands around the place between two newlines. -/
theorem getElem?_splitLines (front back : List Char) :
    (splitLines (front ++ back))[newlines front]? = some (lastLine front ++ firstLine back) := by
  induction front using List.reverseRecOn generalizing back with
  | nil => exact getElem?_splitLines_zero back
  | append_singleton front c ih =>
      by_cases hc : c = '\n'
      · subst hc
        have counted : newlines (front ++ ['\n']) = (splitLines front).length := by
          rw [length_splitLines, newlines_append]
          rfl
        have fresh : lastLine (front ++ ['\n']) = [] := List.rtakeWhile_concat_neg _ _ _ (by simp)
        have divided : splitLines (front ++ '\n' :: back) = splitLines front ++ splitLines back :=
          pieces_append_separator '\n' front back
        rw [counted, fresh, List.append_assoc, List.singleton_append, divided,
          List.getElem?_append_right (Nat.le_refl _), Nat.sub_self]
        exact getElem?_splitLines_zero back
      · have counted : newlines (front ++ [c]) = newlines front := by
          simp [newlines, hc]
        have behind := ih (c :: back)
        have longer : lastLine (front ++ [c]) = lastLine front ++ [c] :=
          List.rtakeWhile_concat_pos _ _ _ (by simpa using hc)
        have read : firstLine (c :: back) = c :: firstLine back :=
          List.takeWhile_cons_of_pos (by simpa using hc)
        rw [counted, longer, List.append_assoc, List.append_assoc, List.singleton_append,
          List.singleton_append, behind, read]

/-- The line shown for a place is what stands around the place between two newlines, without the
carriage returns at the end. -/
theorem lineText_eq {source : String} {front back : List Char} (h : source.toList = front ++ back) :
    lineText source ((1 + newlines front : Nat) : Int) =
      String.ofList (stripTrailing (· == '\r') (lastLine front ++ firstLine back)) := by
  have positive : (0 : Int) < ((1 + newlines front : Nat) : Int) := by omega
  have index : ((1 + newlines front : Nat) : Int).toNat - 1 = newlines front := by omega
  rw [lineText, if_pos positive, index, h, getElem?_splitLines]

/-- The first line of a text goes on if more text follows. -/
theorem firstLine_prefix_append (front back : List Char) :
    firstLine front <+: firstLine (front ++ back) := by
  rw [firstLine, firstLine, List.takeWhile_append]
  split
  · exact (List.takeWhile_prefix _).trans (List.prefix_append front _)
  · exact List.prefix_rfl

/-- Something is left of a text that starts with what is not stripped. -/
theorem stripTrailing_cons_ne_nil {p : Char → Bool} {c : Char} (hc : p c = false)
    (rest : List Char) : stripTrailing p (c :: rest) ≠ [] := by
  have alone : stripTrailing p [c] ≠ [] := by simp [stripTrailing, hc]
  exact (stripTrailing_prefix_append p [c] rest).ne_nil alone

/-- What starts at a place is shown in its column, up to its first newline and without the carriage
returns in front of that. -/
theorem prefix_lineText {source : String} {front part back : List Char}
    (h : source.toList = front ++ (part ++ back))
    (hfirst : ∃ c ∈ part.head?, c ≠ '\r' ∧ c ≠ '\n') :
    stripTrailing (· == '\r') (firstLine part) <+:
      (lineText source ((1 + newlines front : Nat) : Int)).toList.drop (lastLine front).length := by
  rcases hfirst with ⟨c, hc, hreturn, hnewline⟩
  rcases List.head?_eq_some_iff.1 hc with ⟨rest, rfl⟩
  have read : firstLine (c :: (rest ++ back)) = c :: firstLine (rest ++ back) :=
    List.takeWhile_cons_of_pos (by simpa using hnewline)
  have left : stripTrailing (· == '\r') (firstLine (c :: rest ++ back)) ≠ [] := by
    rw [List.cons_append, read]
    exact stripTrailing_cons_ne_nil (by simpa using hreturn) _
  obtain ⟨more, hmore⟩ := firstLine_prefix_append (c :: rest) back
  rw [lineText_eq h, String.toList_ofList, stripTrailing_append, if_neg left, List.drop_left,
    ← hmore]
  exact stripTrailing_prefix_append _ _ _

/-! ## Lines of what is found -/

/-- Segments never lead to a line further up. -/
theorem le_lineBehind (line : Nat) (parts : List Segment) : line ≤ lineBehind line parts := by
  induction parts generalizing line with
  | nil => exact Nat.le_refl _
  | cons part rest ih => exact Nat.le_trans (Nat.le_add_right _ _) (ih (line + part.lineBreaks))

/-- No token stands on a line behind the last segment. -/
theorem line_le_of_mem_tokensFrom {line : Nat} {parts : List Segment} {token : Token}
    (h : token ∈ tokensFrom line parts) : token.line ≤ lineBehind line parts := by
  induction parts generalizing line with
  | nil =>
      obtain rfl : token = .eof line := by simpa [tokensFrom] using h
      exact Int.le_refl _
  | cons part rest ih =>
      rw [tokensFrom, List.mem_append, Option.mem_toList] at h
      rcases h with h | h
      · rw [Segment.line_of_token? h]
        exact Int.ofNat_le.2 (le_lineBehind line (part :: rest))
      · exact ih h

/-- A report on a segment is about one of the lines that the segment spans. -/
theorem Segment.line_of_report? {part : Segment} {line : Nat} {report : Diagnostic}
    (h : part.report? line = some report) :
    (line : Int) ≤ report.line ∧ report.line ≤ ((line + part.lineBreaks : Nat) : Int) := by
  cases part <;> cases h
  case unterminated body =>
    simp only [Diagnostic.ofError, lineBreaks]
    omega
  case unexpected c =>
    simp only [Diagnostic.ofError, lineBreaks]
    omega

/-- Every report is about a line between the first and the last segment. -/
theorem line_of_mem_reportsFrom {line : Nat} {parts : List Segment} {report : Diagnostic}
    (h : report ∈ reportsFrom line parts) :
    (line : Int) ≤ report.line ∧ report.line ≤ lineBehind line parts := by
  induction parts generalizing line with
  | nil => cases h
  | cons part rest ih =>
      have behind : line + part.lineBreaks ≤ lineBehind line (part :: rest) :=
        le_lineBehind (line + part.lineBreaks) rest
      rw [reportsFrom, List.mem_append, Option.mem_toList] at h
      rcases h with h | h
      · have here := Segment.line_of_report? h
        omega
      · have later : ((line + part.lineBreaks : Nat) : Int) ≤ report.line ∧
            report.line ≤ lineBehind line (part :: rest) := ih h
        omega

/-- Every token and every report of a scan is on a line of the text. -/
theorem isLineOf_of_mem_scan (source : String) :
    (∀ token ∈ (scan source).tokens, IsLineOf source token.line) ∧
      ∀ report ∈ (scan source).diagnostics, IsLineOf source report.line := by
  have behind : lineBehind 1 (segments source.toList) = (splitLines source.toList).length := by
    rw [lineBehind_eq (fits_segments source.toList), text_segments, length_splitLines,
      Nat.add_comm]
  constructor
  · intro token htoken
    rw [IsLineOf, ← behind]
    exact ⟨le_line_of_mem_tokensFrom htoken, line_le_of_mem_tokensFrom htoken⟩
  · intro report hreport
    rw [IsLineOf, ← behind]
    exact line_of_mem_reportsFrom hreport

/-- The text of a token starts with a character that is shown. -/
theorem Segment.exists_head_of_token? {part : Segment} {line : Int} {token : Token}
    (hwf : part.WellFormed) (h : part.token? line = some token) :
    ∃ c ∈ part.text.head?, c ≠ '\r' ∧ c ≠ '\n' := by
  have htoken : part.isToken = true := by rw [← part.isSome_token? line, h, Option.isSome_some]
  have hlexeme : IsLexeme part.text := isLexeme_iff.2 ⟨part, hwf, htoken, rfl⟩
  rcases List.exists_cons_of_ne_nil hlexeme.ne_nil with ⟨c, rest, hcons⟩
  have hc : c ∈ part.text.head? := by rw [hcons, List.head?_cons, Option.mem_some]
  have hblank := hlexeme.not_isBlank hc
  refine ⟨c, hc, ?_, ?_⟩
  · rintro rfl
    exact hblank (by decide)
  · rintro rfl
    exact hblank (by decide)

/-! ## Passes -/

namespace Cursor

/-- How what one pass finds is shown.  A token is shown in the column where its lexeme starts, up to
the first newline in it; an unexpected character is shown in its column; and for a string without an
end the last line of the text is shown. -/
structure ShowsLine (source : String) (before after : Cursor) : Prop where
  start_eq : after.start = before.current
  lexeme_eq : after.lexeme = (source.toList.take after.current).drop after.start
  tokens_eq : after.tokens = before.tokens ∨
    ∃ token, after.tokens = before.tokens ++ [token] ∧ token.type ≠ .eof ∧
      token.lexeme = String.ofList after.lexeme ∧
      stripTrailing (· == '\r') (firstLine token.lexeme.toList) <+:
        (lineText source token.line).toList.drop (column source.toList after.start)
  diagnostics_eq : after.diagnostics = before.diagnostics ∨
    (∃ line c, after.diagnostics = before.diagnostics ++ [.ofError line .unexpectedCharacter] ∧
      after.lexeme = [c] ∧
      (lineText source line).toList[column source.toList after.start]? = some c) ∨
    ∃ line, after.diagnostics = before.diagnostics ++ [.ofError line .unterminatedString] ∧
      lineText source line = String.ofList (stripTrailing (· == '\r') (lastLine source.toList))

/-- For the end of a text its last line is shown. -/
theorem lineText_end (source : String) :
    lineText source ((1 + newlines source.toList : Nat) : Int) =
      String.ofList (stripTrailing (· == '\r') (lastLine source.toList)) := by
  have whole : source.toList = source.toList ++ [] := (List.append_nil _).symm
  rw [lineText_eq whole]
  exact congrArg _ (congrArg _ (List.append_nil _))

/-- Every pass from a cursor in step finds what is shown for it. -/
theorem InStep.showsLine {source : String} {before after : Cursor}
    (h : InStep source.toList before) (hpass : before.pass? = some after) :
    ShowsLine source before after := by
  have hafter := h.pass? hpass
  rcases exists_part_of_pass? hpass with ⟨part, hwf, hstop, rfl, hahead⟩
  have hlexeme : (before.found part).lexeme = part.text := lexeme_mark_past hahead 0
  have whole : source.toList =
      source.toList.take before.current ++ (part.text ++ (before.found part).ahead) := by
    rw [← hahead, ahead, h.source_eq, List.take_append_drop]
  refine
    { start_eq := rfl
      lexeme_eq := by rw [lexeme, hafter.source_eq]
      tokens_eq := ?_
      diagnostics_eq := ?_ }
  · rw [tokens_found]
    cases htoken : part.token? before.line with
    | none => exact Or.inl (List.append_nil _)
    | some token =>
        refine Or.inr ⟨token, rfl, Segment.type_of_token? htoken, ?_, ?_⟩
        · rw [hlexeme, Segment.lexeme_of_token? htoken]
        · rw [Segment.line_of_token? htoken, Segment.lexeme_of_token? htoken, h.line_eq,
            String.toList_ofList]
          exact prefix_lineText whole (Segment.exists_head_of_token? hwf htoken)
  · rw [diagnostics_found, hlexeme]
    cases part with
    | unexpected c =>
        refine Or.inr (Or.inl ⟨before.line, c, rfl, rfl, ?_⟩)
        have hreturn : c ≠ '\r' := by
          rintro rfl
          cases hwf.2.1
        have hnewline : c ≠ '\n' := hwf.2.2.1
        have alone : stripTrailing (· == '\r') (firstLine [c]) = [c] := by
          simp [stripTrailing, firstLine, hreturn, hnewline]
        obtain ⟨more, hmore⟩ := prefix_lineText whole ⟨c, rfl, hreturn, hnewline⟩
        rw [Segment.text, alone] at hmore
        have shown := congrArg (·[0]?) hmore
        rw [h.line_eq, start_found]
        simpa [List.getElem?_drop, column] using shown.symm
    | unterminated body =>
        refine Or.inr (Or.inr ⟨before.line + newlines body, rfl, ?_⟩)
        have ended : (before.found (.unterminated body)).ahead = [] := hstop
        have counted := congrArg newlines whole
        rw [ended, List.append_nil, newlines_append, Segment.newlines_text hwf] at counted
        have last : (before.line : Int) + newlines body =
            ((1 + newlines source.toList : Nat) : Int) := by
          rw [counted, h.line_eq, ← Nat.add_assoc]
          rfl
        rw [last, lineText_end]
    | _ => exact Or.inl (List.append_nil _)

/-- The line shown for what a scan finds is the line that it read.  Every pass over a text is shown
as it should; the closing token, which stands behind all that the passes find, is shown on the last
line of the text; and every token and every report is on one of the lines of the text. -/
theorem isChain_showsLine (source : String) :
    List.IsChain (ShowsLine source) (ofSource source :: (ofSource source).passes) ∧
      (∃ line, (scan source).tokens = (ofSource source).last.tokens ++ [.eof line] ∧
        lineText source line =
          String.ofList (stripTrailing (· == '\r') (lastLine source.toList))) ∧
      (scan source).diagnostics = (ofSource source).last.diagnostics ∧
      (∀ token ∈ (scan source).tokens, IsLineOf source token.line) ∧
      ∀ report ∈ (scan source).diagnostics, IsLineOf source report.line := by
  have hstart := inStep_ofSource source
  rcases hstart.last with ⟨hlast, hend⟩
  have line_eq := hlast.line_eq
  rw [hend, List.take_length] at line_eq
  refine ⟨?_, ⟨((1 + newlines source.toList : Nat) : Int), ?_, lineText_end source⟩, ?_,
    isLineOf_of_mem_scan source⟩
  · apply isChain_passes _ hstart
    intro before after h hpass
    exact h.showsLine hpass
  · rw [scan_eq_finish, tokens_finish rfl, line_eq]
  · rw [scan_eq_finish, diagnostics_finish rfl]

end Cursor

end Lox
