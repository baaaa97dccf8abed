import Lox.Proofs.Passes

/-!
# Line numbers

The line of a cursor is one more than the newlines that it has read, after every pass.  A token
carries the line on which its lexeme starts, even if the lexeme goes on over further lines, and the
closing token the last line of the text.

Main results:

- Theorem `Segment.line_of_token?`: a segment that starts on a line has its token on that line.
- Theorem `Cursor.isChain_countsLines`: the law of line numbers, for every pass over a text.
-/

namespace Lox

namespace Segment

variable {part : Segment} {line : Int} {token : Token}

/-- A segment that starts on a line has its token on that line. -/
theorem line_of_token? (h : part.token? line = some token) : token.line = line := by
  cases part <;> cases h <;> rfl

/-- The lexeme of a token is the text of its segment. -/
theorem lexeme_of_token? (h : part.token? line = some token) :
    token.lexeme = String.ofList part.text := by
  cases part <;> cases h <;> rfl

/-- No segment stands for the closing token. -/
theorem type_of_token? (h : part.token? line = some token) : token.type ≠ .eof := by
  cases part with
  | word word =>
      cases h
      unfold TokenType.ofWord
      split <;> simp
  | _ => cases h <;> simp

end Segment

/-- No token stands on a line in front of the first segment. -/
theorem le_line_of_mem_tokensFrom {line : Nat} {parts : List Segment} {token : Token}
    (h : token ∈ tokensFrom line parts) : (line : Int) ≤ token.line := by
  induction parts generalizing line with
  | nil =>
      obtain rfl : token = .eof line := by simpa [tokensFrom] using h
      exact Int.le_refl _
  | cons part rest ih =>
      rw [tokensFrom, List.mem_append, Option.mem_toList] at h
      rcases h with h | h
      · exact Int.le_of_eq (Segment.line_of_token? h).symm
      · have later := ih h
        push_cast at later
        omega

/-- The lines of the tokens never decrease. -/
theorem pairwise_line_tokensFrom (line : Nat) (parts : List Segment) :
    (tokensFrom line parts).Pairwise fun first second => first.line ≤ second.line := by
  induction parts generalizing line with
  | nil => exact List.pairwise_singleton _ _
  | cons part rest ih =>
      rw [tokensFrom]
      cases h : part.token? line with
      | none => exact ih (line + part.lineBreaks)
      | some token =>
          refine List.pairwise_cons.2 ⟨?_, ih (line + part.lineBreaks)⟩
          intro later hlater
          have bound := le_line_of_mem_tokensFrom hlater
          have here := Segment.line_of_token? h
          push_cast at bound
          omega

namespace Cursor

/-- How one pass over a text counts lines.  The newlines of the lexeme are counted once, and a token
that the pass appends is on the line where the lexeme starts. -/
structure CountsLines (text : List Char) (before after : Cursor) : Prop where
  start_eq : after.start = before.current
  lexeme_eq : after.lexeme = (text.take after.current).drop after.start
  startLine_eq : after.startLine = 1 + newlines (text.take after.start)
  line_eq : after.line = 1 + newlines (text.take after.current)
  counted : after.line = before.line + newlines after.lexeme
  tokens_eq : after.tokens = before.tokens ∨
    ∃ token, after.tokens = before.tokens ++ [token] ∧ token.type ≠ .eof ∧
      token.lexeme = String.ofList after.lexeme ∧
      token.line = ((1 + newlines (text.take after.start) : Nat) : Int)

/-- Every pass from a cursor in step counts lines as it should. -/
theorem InStep.countsLines {text : List Char} {before after : Cursor} (h : InStep text before)
    (hpass : before.pass? = some after) : CountsLines text before after := by
  have hafter := h.pass? hpass
  rcases exists_part_of_pass? hpass with ⟨part, hwf, -, rfl, hahead⟩
  have hlexeme : (before.found part).lexeme = part.text := lexeme_mark_past hahead 0
  refine
    { start_eq := rfl
      lexeme_eq := by rw [lexeme, hafter.source_eq]
      startLine_eq := h.line_eq
      line_eq := hafter.line_eq
      counted := ?_
      tokens_eq := ?_ }
  · rw [hlexeme, Segment.newlines_text hwf]
    rfl
  · rw [tokens_found]
    cases htoken : part.token? before.line with
    | none => exact Or.inl (List.append_nil _)
    | some token =>
        refine Or.inr ⟨token, rfl, Segment.type_of_token? htoken, ?_, ?_⟩
        · rw [hlexeme, Segment.lexeme_of_token? htoken]
        · rw [Segment.line_of_token? htoken, h.line_eq]
          rfl

/-- The law of line numbers.  Every pass over a text counts each newline it reads once and puts its
token on the line where the lexeme starts; the closing token is on the last line of the text; and
the lines of the tokens never decrease. -/
theorem isChain_countsLines (source : String) :
    List.IsChain (CountsLines source.toList) (ofSource source :: (ofSource source).passes) ∧
      (ofSource source).finish.tokens =
        (ofSource source).last.tokens ++ [.eof ((1 + newlines source.toList : Nat) : Int)] ∧
      (scan source).tokens = (ofSource source).finish.tokens ∧
      (scan source).tokens.Pairwise fun first second => first.line ≤ second.line := by
  refine ⟨?_, ?_, ?_, ?_⟩
  · apply isChain_passes _ (inStep_ofSource source)
    intro before after h hpass
    exact h.countsLines hpass
  · rcases (inStep_ofSource source).last with ⟨hlast, hend⟩
    have line_eq := hlast.line_eq
    rw [hend, List.take_length] at line_eq
    rw [tokens_finish rfl, line_eq]
  · rw [scan_eq_finish]
  · exact pairwise_line_tokensFrom 1 (segments source.toList)

end Cursor

end Lox
