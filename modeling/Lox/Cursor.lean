import Lox.Cursor.Reading

/-!
# Scanning step by step

A cursor can be asked about the text ahead, moved by single characters, made to read one segment, or
run to the end.  Running to the end appends the closing token and happens once.

Main results:

- `Cursor.pass?_of_ahead_cons`: a pass finds the segment that is cut off the text ahead.
- `Cursor.pass?_eq_none_iff`: a pass fails exactly at the end of the text.
- `Cursor.length_ahead_pass?_lt`: a pass makes the text ahead shorter.
-/

namespace Lox

namespace Cursor

/-! ## Passes -/

/-- One pass: starts a lexeme and reads it. -/
def pass? (c : Cursor) : Option Cursor :=
  c.mark.advance?.bind fun (first, next) => next.readFrom? first

/-- There is no pass at the end of the text. -/
theorem pass?_of_ahead_nil {c : Cursor} (h : c.ahead = []) : c.pass? = none := by
  have ended : c.mark.ahead = [] := h
  simp [pass?, advance?, ended]

/-- A pass finds the segment that is cut off the text ahead. -/
theorem pass?_of_ahead_cons {c : Cursor} {first : Char} {rest : List Char}
    (h : c.ahead = first :: rest) : c.pass? = some (c.found (Segment.cut first rest).1) := by
  rw [pass?, advance?_of_ahead (c := c.mark) h]
  exact readFrom?_eq h

/-- A pass fails exactly at the end of the text. -/
theorem pass?_eq_none_iff (c : Cursor) : c.pass? = none ↔ c.atEnd = true := by
  unfold atEnd
  cases h : c.ahead with
  | nil => simp [pass?_of_ahead_nil h]
  | cons first rest => simp [pass?_of_ahead_cons h]

/-- What a pass does if there is one. -/
theorem pass?_eq_some_iff {c next : Cursor} :
    c.pass? = some next ↔
      ∃ first rest, c.ahead = first :: rest ∧ next = c.found (Segment.cut first rest).1 := by
  cases h : c.ahead with
  | nil => simp [pass?_of_ahead_nil h]
  | cons first rest =>
      rw [pass?_of_ahead_cons h, Option.some.injEq]
      constructor
      · rintro rfl
        exact ⟨first, rest, rfl, rfl⟩
      · rintro ⟨_, _, same, rfl⟩
        cases same
        rfl

/-- The text ahead of a cursor that has found the next segment. -/
theorem ahead_found {c : Cursor} {first : Char} {rest : List Char} (h : c.ahead = first :: rest) :
    (c.found (Segment.cut first rest).1).ahead = (Segment.cut first rest).2 :=
  ahead_mark_past (Segment.cut first rest).1.text (by rw [Segment.text_cut, h]) 0

/-- A pass makes the text ahead shorter. -/
theorem length_ahead_pass?_lt {c next : Cursor} (h : c.pass? = some next) :
    next.ahead.length < c.ahead.length := by
  obtain ⟨first, rest, hahead, rfl⟩ := pass?_eq_some_iff.1 h
  rw [ahead_found hahead, hahead]
  exact Segment.length_rest_cut_lt first rest

/-- The cursors behind each pass to the end of the text. -/
def passes (c : Cursor) : List Cursor :=
  match h : c.pass? with
  | none => []
  | some next =>
      have := length_ahead_pass?_lt h
      next :: passes next
termination_by c.ahead.length

/-- Runs to the end of the text and appends the closing token, unless that has happened before. -/
def finish (c : Cursor) : Cursor :=
  if c.done then c
  else
    let last := c.passes.getLast?.getD c
    { last with newestTokens := .eof last.line :: last.newestTokens, done := true }

/-! ## Operations -/

/-- What a cursor can be told to do. -/
inductive Operation where
  | atEnd
  | peek
  | peekNext
  | matchNext (expected : String)
  | advance
  | mark
  | pass
  | emit (type : TokenType) (literal : Option Literal)
  | report (error : LexicalError)
  | finish

/-- What a cursor answers. -/
inductive Answer where
  | nothing
  | flag (value : Bool)
  | character (value : Char)
  | tokens (value : List Token)
  | pastEnd

/-- Carries out one operation.  Advancing fails at the end of the text and changes nothing; a pass
fails there too, but starts a lexeme all the same. -/
def perform (c : Cursor) : Operation → Answer × Cursor
  | .atEnd => (.flag c.atEnd, c)
  | .peek => (.character c.peek, c)
  | .peekNext => (.character c.peekNext, c)
  | .matchNext expected =>
      let (found, next) := c.matchNext expected
      (.flag found, next)
  | .advance =>
      match c.advance? with
      | some (read, next) => (.character read, next)
      | none => (.pastEnd, c)
  | .mark => (.nothing, c.mark)
  | .pass =>
      match c.pass? with
      | some next => (.nothing, next)
      | none => (.pastEnd, c.mark)
  | .emit type literal => (.nothing, c.emit type literal)
  | .report error => (.nothing, c.report error)
  | .finish =>
      let last := c.finish
      (.tokens last.tokens, last)

/-- Carries out operations one after the other. -/
def run (c : Cursor) : List Operation → Cursor
  | [] => c
  | operation :: rest => (c.perform operation).2.run rest

end Cursor

end Lox
