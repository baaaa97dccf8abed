import Lox.Proofs.LexicalClass
import Lox.Proofs.Passes
import Mathlib.Data.List.Forall2

/-!
# Maximal munch

A cursor moves by single characters and decides by what it sees ahead.  Its passes nevertheless
divide a text by one rule: each takes the longest text in a lexical class off the front of what is
left.  The scan consists of what the pieces stand for, in order, and the closing token.

Main results:

- Theorem `Cursor.InStep.munches`: one pass takes the longest text in a class.
- Theorem `Cursor.isChain_munches`: the passes over a text divide it by maximal munch, and the scan
  of the text is what the pieces stand for.
-/

namespace Lox.Cursor

/-- How one pass over a text moves.  It starts where the one before it ended and takes the longest
text in a class off the front of what is left. -/
structure Munches (text : List Char) (before after : Cursor) : Prop where
  start_eq : after.start = before.current
  start_lt : after.start < after.current
  current_le : after.current ≤ text.length
  lexeme_eq : after.lexeme = (text.take after.current).drop after.start
  isMunch : IsMunch (text.drop after.start) after.lexeme

/-- A pass from a cursor in step takes the longest text in a class. -/
theorem InStep.munches {text : List Char} {before after : Cursor} (h : InStep text before)
    (hpass : before.pass? = some after) : Munches text before after := by
  have hafter := h.pass? hpass
  rcases pass?_eq_some_iff.1 hpass with ⟨first, rest, hahead, rfl⟩
  have whole : before.ahead = (Segment.cut first rest).1.text ++ (Segment.cut first rest).2 := by
    rw [Segment.text_cut, hahead]
  have hlexeme : (before.found (Segment.cut first rest).1).lexeme =
      (Segment.cut first rest).1.text := lexeme_mark_past whole 0
  have hleft : text.drop before.current = first :: rest := by
    rw [← h.source_eq]
    exact hahead
  have some_text := List.length_pos_iff.2 (Segment.text_ne_nil (Segment.cut_valid first rest).1)
  refine
    { start_eq := rfl
      start_lt := Nat.lt_add_of_pos_right some_text
      current_le := hafter.current_le
      lexeme_eq := by rw [lexeme, hafter.source_eq]
      isMunch := ?_ }
  have hstart : (before.found (Segment.cut first rest).1).start = before.current := rfl
  rw [hlexeme, hstart, hleft]
  exact Segment.isMunch_cut first rest

/-- A run from a cursor in step notes what the lexemes of its passes stand for. -/
theorem InStep.exists_notes {text : List Char} {c : Cursor} (hc : InStep text c) :
    ∃ notes : List (Option Token × Option Diagnostic),
      List.Forall₂
        (fun pass note =>
          Yields (1 + newlines (text.take pass.start)) pass.lexeme note.1 note.2) c.passes notes ∧
      c.last.tokens = c.tokens ++ notes.filterMap Prod.fst ∧
      c.last.diagnostics = c.diagnostics ++ notes.filterMap Prod.snd := by
  induction c using passes.induct with
  | case1 c h =>
      rw [passes_of_none h, last_of_none h]
      exact ⟨[], .nil, by simp, by simp⟩
  | case2 c next h _ ih =>
      rcases ih (hc.pass? h) with ⟨notes, hnotes, htokens, hreports⟩
      rcases exists_part_of_pass? h with ⟨part, hwf, -, rfl, hahead⟩
      rw [passes_of_some h, last_of_some h]
      have yields := Segment.yields hwf c.line
      refine ⟨(part.token? c.line, part.report? c.line) :: notes, .cons ?_ hnotes, ?_, ?_⟩
      · rw [show (c.found part).lexeme = part.text from lexeme_mark_past hahead 0,
          show (c.found part).start = c.current from rfl, ← hc.line_eq]
        exact yields
      · rw [htokens, tokens_found, List.append_assoc]
        cases part.token? c.line <;> rfl
      · rw [hreports, diagnostics_found, List.append_assoc]
        cases part.report? c.line <;> rfl

/-- The passes over a text divide it by maximal munch: they start at its beginning, each starts
where the one before it ended and takes the longest text in a class, and the last one ends at the
end of the text.  The scan of the text is what the pieces stand for, in order, and the closing
token. -/
theorem isChain_munches (source : String) :
    List.IsChain (Munches source.toList) (ofSource source :: (ofSource source).passes) ∧
      (ofSource source).last.current = source.toList.length ∧
      scan source = ⟨(ofSource source).finish.tokens, (ofSource source).finish.diagnostics⟩ ∧
      ∃ notes : List (Option Token × Option Diagnostic),
        List.Forall₂
          (fun pass note =>
            Yields (1 + newlines (source.toList.take pass.start)) pass.lexeme note.1 note.2)
          (ofSource source).passes notes ∧
        (scan source).tokens =
          notes.filterMap Prod.fst ++ [.eof ((1 + newlines source.toList : Nat) : Int)] ∧
        (scan source).diagnostics = notes.filterMap Prod.snd := by
  have hstart := inStep_ofSource source
  rcases hstart.last with ⟨hlast, hend⟩
  rcases hstart.exists_notes with ⟨notes, hnotes, htokens, hreports⟩
  have line_eq := hlast.line_eq
  rw [hend, List.take_length] at line_eq
  refine ⟨?_, hend, scan_eq_finish source, notes, hnotes, ?_, ?_⟩
  · apply isChain_passes _ hstart
    intro before after h hpass
    exact h.munches hpass
  · rw [scan_eq_finish, tokens_finish rfl, htokens, line_eq]
    rfl
  · rw [scan_eq_finish, diagnostics_finish rfl, hreports]
    rfl

end Lox.Cursor
