import Lox.Cursor
import Lox.Proofs.Segmentation
import Lox.Scan
import Mathlib.Data.List.Chain

/-!
# Passes over a text

A scan is a chain of passes.  What is known of one pass is said once, for a cursor that has counted
the lines of all it has read; what holds along the chain follows by induction over the passes.

Main results:

- Theorem `Cursor.InStep.pass?`: every pass keeps the count of the lines.
- Theorem `Cursor.isChain_passes`: what every pass from a cursor in step does holds between any two
  neighbours of a run.
- Theorem `Cursor.forall_mem_passes`: what a pass keeps holds all along a run of passes.
- Theorems `Cursor.tokens_last` and `Cursor.diagnostics_last`: a run finds what the segments ahead
  of the cursor stand for.
- Theorem `Cursor.scan_eq_finish`: scanning a text is running a cursor over it.
-/

namespace Lox

/-! ## Newlines -/

theorem newlines_nil : newlines [] = 0 := rfl

@[simp] theorem newlines_append (front back : List Char) :
    newlines (front ++ back) = newlines front + newlines back :=
  List.count_append

theorem newlines_eq_zero_iff {text : List Char} : newlines text = 0 ↔ '\n' ∉ text :=
  List.count_eq_zero

namespace Segment

/-- A separator is no newline. -/
theorem ne_newline_of_isSeparator {c : Char} (h : isSeparator c = true) : c ≠ '\n' := by
  rintro rfl
  cases h

private theorem newlines_digits {digits : List Char} (h : IsDigits digits) :
    newlines digits = 0 := by
  rw [newlines_eq_zero_iff]
  intro hnewline
  cases h.2 '\n' hnewline

/-- The lines that a segment spans are the newlines in it. -/
theorem newlines_text {part : Segment} (h : part.WellFormed) :
    newlines part.text = part.lineBreaks := by
  cases part with
  | operator op => cases op <;> rfl
  | blank c => simp [text, lineBreaks, newlines, ne_newline_of_isSeparator h]
  | newline => rfl
  | comment body =>
      have body_lines : newlines body = 0 := newlines_eq_zero_iff.2 h
      simpa [text, lineBreaks, newlines] using body_lines
  | string body => simp [text, lineBreaks, newlines]
  | number whole fraction =>
      cases fraction with
      | none => exact newlines_digits h.1
      | some places =>
          have places_lines := newlines_digits (h.2 places rfl)
          have whole_lines := newlines_digits h.1
          simp only [newlines] at places_lines whole_lines
          simp [text, lineBreaks, newlines, whole_lines, places_lines]
  | word word =>
      rcases h with ⟨c, rest, rfl, hstart, hrest⟩
      refine newlines_eq_zero_iff.2 ?_
      intro hnewline
      rcases List.mem_cons.1 hnewline with rfl | hnewline
      · cases hstart
      · cases hrest '\n' hnewline
  | unterminated body => simp [text, lineBreaks, newlines]
  | unexpected c =>
      have hnewline : c ≠ '\n' := h.2.2.1
      simp [text, lineBreaks, newlines, hnewline]

end Segment

/-- The lines behind some segments are the lines of their text. -/
theorem lineBehind_eq {parts : List Segment} (h : Fits parts) (line : Nat) :
    lineBehind line parts = line + newlines (parts.flatMap Segment.text) := by
  induction parts generalizing line with
  | nil => rfl
  | cons part rest ih =>
      rcases h with ⟨hwf, -, hrest⟩
      have later : lineBehind line (part :: rest) = lineBehind (line + part.lineBreaks) rest := rfl
      rw [later, ih hrest, List.flatMap_cons, newlines_append, Segment.newlines_text hwf,
        Nat.add_assoc]

namespace Cursor

/-! ## One pass -/

/-- A cursor in step has counted the lines of all it has read. -/
structure InStep (text : List Char) (c : Cursor) : Prop where
  source_eq : c.source = text
  current_le : c.current ≤ text.length
  line_eq : c.line = 1 + newlines (text.take c.current)

/-- A cursor in front of a text is in step. -/
theorem inStep_ofSource (source : String) : InStep source.toList (ofSource source) where
  source_eq := rfl
  current_le := Nat.zero_le _
  line_eq := rfl

/-- What a pass does: it finds a segment that was cut off the text ahead. -/
theorem exists_part_of_pass? {c next : Cursor} (h : c.pass? = some next) :
    ∃ part : Segment, part.WellFormed ∧ part.Stops next.ahead ∧ next = c.found part ∧
      c.ahead = part.text ++ next.ahead := by
  rcases pass?_eq_some_iff.1 h with ⟨first, rest, hahead, rfl⟩
  rcases Segment.cut_valid first rest with ⟨hwf, hstop⟩
  rw [ahead_found hahead]
  exact ⟨_, hwf, hstop, rfl, by rw [Segment.text_cut, hahead]⟩

/-- A segment starts where the pass that finds it starts. -/
theorem start_found (c : Cursor) (part : Segment) : (c.found part).start = c.current := rfl

/-- The tokens of a cursor that has found a segment. -/
theorem tokens_found (c : Cursor) (part : Segment) :
    (c.found part).tokens = c.tokens ++ (part.token? c.line).toList := by
  cases h : part.token? c.line <;> simp [tokens, found, h]

/-- The reports of a cursor that has found a segment. -/
theorem diagnostics_found (c : Cursor) (part : Segment) :
    (c.found part).diagnostics = c.diagnostics ++ (part.report? c.line).toList := by
  cases h : part.report? c.line <;> simp [diagnostics, found, h]

namespace InStep

variable {text behind : List Char} {c next : Cursor} {part : Segment}

/-- What has been read behind a segment. -/
theorem take_found (hc : InStep text c) (hahead : c.ahead = part.text ++ behind) :
    text.take (c.found part).current = text.take c.current ++ part.text := by
  have whole : text.drop c.current = part.text ++ behind := by
    rw [← hc.source_eq]
    exact hahead
  rw [found, List.take_add, whole, List.take_left]

/-- Finding a segment keeps the count of the lines. -/
theorem found (hc : InStep text c) (hwf : part.WellFormed)
    (hahead : c.ahead = part.text ++ behind) : InStep text (c.found part) where
  source_eq := hc.source_eq
  current_le := by
    have lengths := congrArg List.length hahead
    have inside := hc.current_le
    simp only [ahead, hc.source_eq, List.length_drop, List.length_append] at lengths
    simp only [Cursor.found]
    omega
  line_eq := by
    rw [hc.take_found hahead, newlines_append, Segment.newlines_text hwf, ← Nat.add_assoc,
      ← hc.line_eq]
    rfl

/-- Every pass keeps the count of the lines. -/
theorem pass? (hc : InStep text c) (h : c.pass? = some next) : InStep text next := by
  rcases exists_part_of_pass? h with ⟨part, hwf, -, rfl, hahead⟩
  exact hc.found hwf hahead

end InStep

/-! ## Runs of passes -/

/-- No passes are left at the end of the text. -/
theorem passes_of_none {c : Cursor} (h : c.pass? = none) : c.passes = [] := by
  unfold passes
  split
  · rfl
  · next h' => simp [h] at h'

/-- A run goes on behind its first pass. -/
theorem passes_of_some {c next : Cursor} (h : c.pass? = some next) :
    c.passes = next :: next.passes := by
  rw [passes]
  split
  · next h' => simp [h] at h'
  · next h' =>
    rw [h] at h'
    cases h'
    rfl

/-- The cursor behind the last pass. -/
def last (c : Cursor) : Cursor :=
  c.passes.getLast?.getD c

/-- Without a pass a cursor stays where it is. -/
theorem last_of_none {c : Cursor} (h : c.pass? = none) : c.last = c := by
  simp [last, passes_of_none h]

/-- The first pass leaves the end of a run as it is. -/
theorem last_of_some {c next : Cursor} (h : c.pass? = some next) : c.last = next.last := by
  simp [last, passes_of_some h, List.getLast?_cons]

/-- What every pass keeps holds all along a run. -/
theorem forall_mem_passes {P : Cursor → Prop}
    (step : ∀ c next, P c → c.pass? = some next → P next) {c : Cursor} (hc : P c) :
    ∀ d ∈ c :: c.passes, P d := by
  induction c using passes.induct with
  | case1 c h => simpa [passes_of_none h] using hc
  | case2 c next h _ ih =>
      rw [passes_of_some h]
      exact List.forall_mem_cons.2 ⟨hc, ih (step c next hc h)⟩

/-- The end of a run is on it. -/
theorem last_mem (c : Cursor) : c.last ∈ c :: c.passes := by
  induction c using passes.induct with
  | case1 c h => simp [last_of_none h]
  | case2 c next h _ ih =>
      rw [last_of_some h, passes_of_some h]
      exact List.mem_cons_of_mem c ih

/-- No passes are left at the end of a run. -/
theorem pass?_last (c : Cursor) : c.last.pass? = none := by
  induction c using passes.induct with
  | case1 c h => rwa [last_of_none h]
  | case2 c next h _ ih => rwa [last_of_some h]

/-- What every pass does holds between any two neighbours of a run, if the passes keep what it
depends on. -/
theorem isChain_of_keeps {P : Cursor → Prop} {R : Cursor → Cursor → Prop}
    (keeps : ∀ c next, P c → c.pass? = some next → P next)
    (step : ∀ c next, P c → c.pass? = some next → R c next) {c : Cursor} (hc : P c) :
    List.IsChain R (c :: c.passes) := by
  induction c using passes.induct with
  | case1 c h =>
      rw [passes_of_none h]
      exact List.isChain_singleton c
  | case2 c next h _ ih =>
      rw [passes_of_some h]
      exact List.isChain_cons_cons.2 ⟨step c next hc h, ih (keeps c next hc h)⟩

/-- What every pass from a cursor in step does holds between any two neighbours of a run. -/
theorem isChain_passes {text : List Char} {R : Cursor → Cursor → Prop}
    (step : ∀ c next, InStep text c → c.pass? = some next → R c next) {c : Cursor}
    (hc : InStep text c) : List.IsChain R (c :: c.passes) :=
  isChain_of_keeps (fun _ _ h hpass => h.pass? hpass) step hc

/-- A run ends in step and at the end of the text. -/
theorem InStep.last {text : List Char} {c : Cursor} (hc : InStep text c) :
    InStep text c.last ∧ c.last.current = text.length := by
  have hlast : InStep text c.last :=
    forall_mem_passes (fun _ _ hstep hpass => hstep.pass? hpass) hc c.last c.last_mem
  have ended : c.last.ahead = [] := by
    simpa [atEnd] using (pass?_eq_none_iff c.last).1 (pass?_last c)
  have inside := hlast.current_le
  have length := congrArg List.length ended
  simp only [ahead, hlast.source_eq, List.length_drop, List.length_nil] at length
  exact ⟨hlast, by omega⟩

/-! ## Running to the end -/

/-- Running to the end appends the closing token. -/
theorem finish_eq {c : Cursor} (h : c.done = false) :
    c.finish =
      { c.last with newestTokens := .eof c.last.line :: c.last.newestTokens, done := true } := by
  rw [finish, if_neg (by simp [h])]
  rfl

/-- What a pass finds stood ahead of it. -/
theorem tokens_ahead_of_pass? {c next : Cursor} (h : c.pass? = some next) :
    next.tokens ++ tokensFrom next.line (segments next.ahead) =
      c.tokens ++ tokensFrom c.line (segments c.ahead) := by
  rcases exists_part_of_pass? h with ⟨part, hwf, hstop, rfl, hahead⟩
  rw [hahead, Segment.segments_append hwf hstop, tokensFrom, tokens_found, List.append_assoc]
  rfl

/-- What a pass reports stood ahead of it. -/
theorem diagnostics_ahead_of_pass? {c next : Cursor} (h : c.pass? = some next) :
    next.diagnostics ++ reportsFrom next.line (segments next.ahead) =
      c.diagnostics ++ reportsFrom c.line (segments c.ahead) := by
  rcases exists_part_of_pass? h with ⟨part, hwf, hstop, rfl, hahead⟩
  rw [hahead, Segment.segments_append hwf hstop, reportsFrom, diagnostics_found,
    List.append_assoc]
  rfl

/-- A run finds the tokens of the segments ahead, apart from the closing one. -/
theorem tokens_last (c : Cursor) :
    c.last.tokens ++ [.eof c.last.line] = c.tokens ++ tokensFrom c.line (segments c.ahead) := by
  induction c using passes.induct with
  | case1 c h =>
      have ended : c.ahead = [] := by simpa [atEnd] using (pass?_eq_none_iff c).1 h
      rw [last_of_none h, ended, segments, tokensFrom]
  | case2 c next h _ ih => rw [last_of_some h, ih, tokens_ahead_of_pass? h]

/-- A run makes the reports on the segments ahead. -/
theorem diagnostics_last (c : Cursor) :
    c.last.diagnostics = c.diagnostics ++ reportsFrom c.line (segments c.ahead) := by
  induction c using passes.induct with
  | case1 c h =>
      have ended : c.ahead = [] := by simpa [atEnd] using (pass?_eq_none_iff c).1 h
      rw [last_of_none h, ended, segments, reportsFrom, List.append_nil]
  | case2 c next h _ ih => rw [last_of_some h, ih, diagnostics_ahead_of_pass? h]

/-- The tokens of a cursor that has run to the end. -/
theorem tokens_finish {c : Cursor} (h : c.done = false) :
    c.finish.tokens = c.last.tokens ++ [.eof c.last.line] := by
  simp [finish_eq h, tokens]

/-- Running to the end makes no report of its own. -/
theorem diagnostics_finish {c : Cursor} (h : c.done = false) :
    c.finish.diagnostics = c.last.diagnostics := by
  simp [finish_eq h, diagnostics]

/-- Scanning a text is running a cursor over it. -/
theorem scan_eq_finish (source : String) :
    scan source = ⟨(ofSource source).finish.tokens, (ofSource source).finish.diagnostics⟩ := by
  rw [tokens_finish rfl, diagnostics_finish rfl, tokens_last, diagnostics_last]
  rfl

/-- The tokens of a scan are those that the passes find and the closing one, which is on the last
line of the text. -/
theorem tokens_scan (source : String) :
    (scan source).tokens =
      (ofSource source).last.tokens ++ [.eof ((1 + newlines source.toList : Nat) : Int)] := by
  rcases (inStep_ofSource source).last with ⟨hlast, hend⟩
  have line_eq := hlast.line_eq
  rw [hend, List.take_length] at line_eq
  rw [scan_eq_finish, tokens_finish rfl, line_eq]

end Cursor

end Lox
