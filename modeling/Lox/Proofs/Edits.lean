import Lox.Proofs.Resumption

/-!
# Edits between passes

A run of passes divides the segments of a text: behind a pass some of them have been read and the
others are ahead.  So an edit at a place between two passes is an edit of the list of segments, and
what it does to the segments in front of the place depends on two characters at most.

Main results:

- Theorem `Segment.Stops.blank_instead`: a blank may take the place of a text that a segment stops
  in front of.
- Theorem `Segment.Stops.append_cons`: what stands behind a character that is no point matters to no
  segment in front of it.
- Theorem `Fits.replace`: the segments behind a place are replaced by others if the ones in front of
  it still stop.
- Theorem `Fits.replace_quoted`: no segment in front of a quote looks behind it.
- Theorem `Cursor.Divides.pass?`: every pass takes one segment off those ahead.
-/

namespace Lox

namespace Segment

variable {part : Segment} {behind : List Char}

/-- A blank may take the place of a text that a segment stops in front of.  A newline may do so
everywhere, any other blank unless it takes the place of a newline. -/
theorem Stops.blank_instead {old : List Char} (h : part.Stops (behind ++ old)) (hold : old ≠ [])
    {c : Char} (hc : IsBlank c) (hline : c = '\n' ∨ old.head? ≠ some '\n') (back : List Char) :
    part.Stops (behind ++ c :: back) := by
  have hclosed : part.isClosed = true := by
    cases part with
    | unterminated body => exact absurd (List.append_eq_nil_iff.1 h).2 hold
    | _ => rfl
  refine h.of_append.append_blank hclosed hc ?_ back
  -- only a newline stands directly behind a comment
  rintro body rfl rfl
  rcases hline with rfl | hline
  · rfl
  · rcases List.exists_cons_of_ne_nil hold with ⟨d, rest, rfl⟩
    have hnewline : d = '\n' := h d rfl
    simp [hnewline] at hline

/-- What stands behind a character that is no point matters to no segment in front of it. -/
theorem Stops.append_cons {c : Char} (hc : c ≠ '.') {back : List Char}
    (h : part.Stops (behind ++ c :: back)) (other : List Char) :
    part.Stops (behind ++ c :: other) := by
  rcases behind with _ | ⟨d, _ | ⟨e, more⟩⟩
  · cases part with
    | number whole fraction =>
        cases fraction with
        | some places => exact h
        | none =>
            refine ⟨h.1, ?_⟩
            rintro d rest hpoint
            exact absurd (List.cons.inj hpoint).1 hc
    | unterminated body => cases h
    | _ => exact h
  all_goals
    rw [← stops_take_two] at h ⊢
    exact h

end Segment

/-! ## Segments in two parts -/

/-- The segments behind a place fit one another. -/
theorem Fits.right {front back : List Segment} (h : Fits (front ++ back)) : Fits back := by
  induction front with
  | nil => exact h
  | cons part front ih => exact ih (fits_cons_append.1 h).2.2

/-- The segments behind a place may be replaced by others that fit one another if every segment that
stops in front of the old ones stops in front of the new ones. -/
theorem Fits.replace {front old new : List Segment} (h : Fits (front ++ old)) (hnew : Fits new)
    (hstops : ∀ (part : Segment) (behind : List Char),
      part.Stops (behind ++ old.flatMap Segment.text) →
        part.Stops (behind ++ new.flatMap Segment.text)) :
    Fits (front ++ new) := by
  induction front with
  | nil => exact hnew
  | cons part front ih =>
      rcases fits_cons_append.1 h with ⟨hwf, hstop, hrest⟩
      exact fits_cons_append.2 ⟨hwf, hstops part _ hstop, ih hrest⟩

/-- What starts with a quote may be replaced by anything else that does. -/
theorem Fits.replace_quoted {front old new : List Segment} (h : Fits (front ++ old))
    (hnew : Fits new) {first second : List Char} (hfirst : old.flatMap Segment.text = '"' :: first)
    (hsecond : new.flatMap Segment.text = '"' :: second) : Fits (front ++ new) := by
  refine h.replace hnew ?_
  intro part behind hstop
  rw [hfirst] at hstop
  rw [hsecond]
  exact hstop.append_cons (by decide) second

namespace Cursor

/-! ## Segments behind a cursor and ahead of it -/

/-- A cursor divides the segments of a text into those that it has read and those ahead of it, and
it has made the reports on those that it has read. -/
structure Divides (source : String) (c : Cursor) (front : List Segment) : Prop where
  inStep : InStep source.toList c
  segments_eq : segments source.toList = front ++ segments c.ahead
  diagnostics_eq : c.diagnostics = reportsFrom 1 front

/-- A cursor in front of a text has all segments ahead. -/
theorem divides_ofSource (source : String) : Divides source (ofSource source) [] where
  inStep := inStep_ofSource source
  segments_eq := rfl
  diagnostics_eq := rfl

namespace Divides

variable {source : String} {c next : Cursor} {front : List Segment}

/-- The segments on both sides of a cursor fit one another. -/
theorem fits (h : Divides source c front) : Fits (front ++ segments c.ahead) := by
  rw [← h.segments_eq]
  exact fits_segments source.toList

/-- The text ahead is what stands behind the place of the cursor. -/
theorem ahead_eq (h : Divides source c front) : c.ahead = source.toList.drop c.current := by
  rw [ahead, h.inStep.source_eq]

/-- The segments that have been read spell the text up to the place of the cursor. -/
theorem text_front (h : Divides source c front) :
    front.flatMap Segment.text = source.toList.take c.current := by
  have whole := text_segments source.toList
  rw [h.segments_eq, List.flatMap_append, text_segments, h.ahead_eq] at whole
  exact List.append_cancel_right (whole.trans (List.take_append_drop _ _).symm)

/-- The text is what the segments that have been read spell and the text ahead. -/
theorem toList_eq (h : Divides source c front) :
    source.toList = front.flatMap Segment.text ++ c.ahead := by
  rw [h.text_front, h.ahead_eq, List.take_append_drop]

/-- The segments that have been read reach up to the place of the cursor. -/
theorem length_front (h : Divides source c front) :
    (front.flatMap Segment.text).length = c.current := by
  rw [h.text_front, List.length_take, Nat.min_eq_left h.inStep.current_le]

/-- The line of the cursor is the one behind the segments that have been read. -/
theorem lineBehind_front (h : Divides source c front) : lineBehind 1 front = c.line := by
  rw [lineBehind_eq h.fits.left, h.text_front, h.inStep.line_eq]

/-- Every pass takes one segment off those ahead. -/
theorem pass? (h : Divides source c front) (hpass : c.pass? = some next) :
    ∃ part : Segment, next = c.found part ∧ c.ahead = part.text ++ next.ahead ∧
      segments c.ahead = part :: segments next.ahead ∧ Divides source next (front ++ [part]) := by
  rcases exists_part_of_pass? hpass with ⟨part, hwf, hstop, rfl, hahead⟩
  have taken : segments c.ahead = part :: segments (c.found part).ahead := by
    rw [hahead]
    exact Segment.segments_append hwf hstop
  refine ⟨part, rfl, hahead, taken, h.inStep.found hwf hahead, ?_, ?_⟩
  · rw [h.segments_eq, taken, List.append_assoc, List.singleton_append]
  · rw [diagnostics_found, h.diagnostics_eq, reportsFrom_append, h.lineBehind_front]
    simp [reportsFrom]

end Divides

/-- Every pass leaves a cursor that divides the segments of the text. -/
theorem divides_pass? {source : String} (c next : Cursor) (h : ∃ front, Divides source c front)
    (hpass : c.pass? = some next) : ∃ front, Divides source next front := by
  rcases h with ⟨front, hfront⟩
  rcases hfront.pass? hpass with ⟨part, -, -, -, hnext⟩
  exact ⟨front ++ [part], hnext⟩

/-- Every cursor on the run over a text divides its segments. -/
theorem exists_divides {source : String} {c : Cursor}
    (hc : c ∈ ofSource source :: (ofSource source).passes) : ∃ front, Divides source c front :=
  forall_mem_passes divides_pass? ⟨[], divides_ofSource source⟩ c hc

end Cursor

end Lox
