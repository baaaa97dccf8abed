import Lox.Proofs.ShownLines

/-!
# Lines put together again

The shown lines of a text, put together with newlines, are the text again, but for the carriage
returns at the ends of its lines.  So nothing else is lost, and nothing is shown twice or on the
wrong line.  Only a newline ends a line: what stands between two newlines is shown on one line,
whatever other separators it holds.

Main results:

- Theorem `intercalate_splitLines`: the lines of a text with newlines between them are the text.
- Theorem `dropReturns_append`: a line is left without the carriage returns at its end.
- Theorem `lineText_rejoins`: the shown lines of a text put together again.
-/

namespace Lox

/-! ## Cutting and joining -/

/-- The pieces of a text are those that its separators divide it into. -/
theorem pieces_eq_splitOn (separator : Char) (text : List Char) :
    pieces separator text = text.splitOn separator := by
  induction text with
  | nil => rfl
  | cons c rest ih =>
      have first : pieces separator (c :: rest) = consPiece separator c (rest.splitOn separator) :=
        congrArg (consPiece separator c) ih
      rw [first, List.splitOn_cons_eq_if_modifyHead]
      obtain ⟨part, others, hparts⟩ :=
        List.exists_cons_of_ne_nil (List.splitOn_ne_nil separator rest)
      by_cases hc : c = separator
      · simp [consPiece, hc]
      · simp [consPiece, hc, hparts]

/-- The lines of a text with newlines between them are the text. -/
theorem intercalate_splitLines (text : List Char) :
    ['\n'].intercalate (splitLines text) = text := by
  rw [splitLines, pieces_eq_splitOn, List.intercalate_splitOn]

/-- A text is known by its lines. -/
theorem splitLines_injective : Function.Injective splitLines :=
  Function.LeftInverse.injective intercalate_splitLines

/-! ## Carriage returns at the ends of lines -/

/-- Nothing but carriage returns stands between the front of a text and its first newline, or its
end. -/
def IsLineEnd (text : List Char) : Prop :=
  ∀ c ∈ (text.dropWhile (· == '\r')).head?, c = '\n'

instance (text : List Char) : Decidable (IsLineEnd text) :=
  Option.decidableForallMem (text.dropWhile (· == '\r')).head?

/-- A text without the runs of carriage returns that stand directly before a newline or at the end
of the text. -/
def dropReturns : List Char → List Char
  | [] => []
  | c :: rest => if c = '\r' ∧ IsLineEnd rest then dropReturns rest else c :: dropReturns rest

/-- A newline and the end of the text are ends of lines. -/
theorem isLineEnd_of_head? {text : List Char} (h : ∀ c ∈ text.head?, c = '\n') :
    IsLineEnd text := by
  have stop : ∀ c ∈ text.head?, (c == '\r') = false := by
    intro c hc
    rw [h c hc]
    rfl
  have untouched : ([] ++ text).dropWhile (· == '\r') = text := (span_eq (by simp) stop).2
  rw [List.nil_append] at untouched
  rwa [IsLineEnd, untouched]

/-- A line ends where only carriage returns are left of it. -/
theorem isLineEnd_append {line back : List Char} (hline : '\n' ∉ line)
    (hback : ∀ c ∈ back.head?, c = '\n') : IsLineEnd (line ++ back) ↔ ∀ c ∈ line, c = '\r' := by
  induction line with
  | nil => exact iff_of_true (isLineEnd_of_head? hback) (by simp)
  | cons c rest ih =>
      simp only [List.mem_cons, not_or] at hline
      by_cases hc : c = '\r'
      · have skipped : IsLineEnd (c :: rest ++ back) = IsLineEnd (rest ++ back) := by
          simp [IsLineEnd, hc]
        rw [skipped, ih hline.2, List.forall_mem_cons, and_iff_right hc]
      · simp [IsLineEnd, hc, Ne.symm hline.1]

/-- Another character than a newline in front of the end of a line is a carriage return. -/
theorem IsLineEnd.of_cons {c : Char} {rest : List Char} (h : IsLineEnd (c :: rest))
    (hc : c ≠ '\n') : c = '\r' ∧ IsLineEnd rest := by
  by_cases hreturn : c = '\r'
  · refine ⟨hreturn, ?_⟩
    simpa [IsLineEnd, hreturn] using h
  · exact absurd (h c (by simp [hreturn])) hc

/-- Nothing is left of a text exactly if all of it is stripped. -/
theorem stripTrailing_eq_nil_iff {p : Char → Bool} {text : List Char} :
    stripTrailing p text = [] ↔ text.all p = true := by
  rw [stripTrailing_eq_iff]
  simp

/-- A text is stripped up to its first character, which goes only if everything behind it goes. -/
theorem stripTrailing_cons (p : Char → Bool) (c : Char) (rest : List Char) :
    stripTrailing p (c :: rest) =
      if p c = true ∧ rest.all p = true then stripTrailing p rest
      else c :: stripTrailing p rest := by
  by_cases hrest : stripTrailing p rest = []
  · by_cases hc : p c = true
    · have all := stripTrailing_eq_nil_iff.1 hrest
      rw [if_pos ⟨hc, all⟩, hrest, stripTrailing_eq_nil_iff, List.all_cons, hc, all, Bool.and_self]
    · rw [if_neg (fun h => hc h.1), ← List.singleton_append, stripTrailing_append, if_pos hrest,
        hrest]
      simp [stripTrailing, hc]
  · rw [if_neg (fun h => hrest (stripTrailing_eq_nil_iff.2 h.2)), ← List.singleton_append,
      stripTrailing_append, if_neg hrest, List.singleton_append]

/-- A line is left without the carriage returns at its end. -/
theorem dropReturns_append {line back : List Char} (hline : '\n' ∉ line)
    (hback : ∀ c ∈ back.head?, c = '\n') :
    dropReturns (line ++ back) = stripTrailing (· == '\r') line ++ dropReturns back := by
  induction line with
  | nil => rfl
  | cons c rest ih =>
      simp only [List.mem_cons, not_or] at hline
      have behind := isLineEnd_append hline.2 hback
      rw [List.cons_append, dropReturns, ih hline.2, stripTrailing_cons]
      simp only [behind, List.all_eq_true, beq_iff_eq]
      split
      · rfl
      · rfl

/-- Lines put together with newlines are left without the carriage returns at their ends. -/
theorem dropReturns_intercalate {lines : List (List Char)} (h : ∀ line ∈ lines, '\n' ∉ line) :
    dropReturns (['\n'].intercalate lines) =
      ['\n'].intercalate (lines.map (stripTrailing (· == '\r'))) := by
  induction lines with
  | nil => rfl
  | cons line rest ih =>
      have hline := h line List.mem_cons_self
      have later := ih fun other hother => h other (List.mem_cons_of_mem _ hother)
      cases rest with
      | nil =>
          have alone : dropReturns (line ++ []) = stripTrailing (· == '\r') line ++ [] :=
            dropReturns_append hline (by simp)
          simpa using alone
      | cons next others =>
          have newline (text : List Char) :
              dropReturns ('\n' :: text) = '\n' :: dropReturns text := by
            simp [dropReturns]
          rw [List.map_cons] at later
          rw [List.intercalate_cons_cons, List.append_assoc, List.singleton_append,
            dropReturns_append hline (by simp), newline, later, List.map_cons, List.map_cons,
            List.intercalate_cons_cons, List.append_assoc, List.singleton_append]

/-- Nothing but carriage returns goes. -/
theorem dropReturns_sublist (text : List Char) : (dropReturns text).Sublist text := by
  induction text with
  | nil => exact .slnil
  | cons c rest ih =>
      rw [dropReturns]
      split
      · exact ih.cons c
      · exact ih.cons_cons c

/-- A carriage return that goes shortens the text. -/
theorem dropReturns_cons_ne {c : Char} {rest : List Char} (h : c = '\r' ∧ IsLineEnd rest) :
    dropReturns (c :: rest) ≠ c :: rest := by
  intro hsame
  have shorter := (dropReturns_sublist rest).length_le
  rw [dropReturns, if_pos h] at hsame
  rw [hsame, List.length_cons] at shorter
  omega

/-- A text is left as it is exactly if no carriage return stands directly before a newline or at the
end. -/
theorem dropReturns_eq_self_iff {text : List Char} :
    dropReturns text = text ↔
      ∀ front back, text = front ++ '\r' :: back → ∃ c ∈ back.head?, c ≠ '\n' := by
  induction text with
  | nil => simp [dropReturns]
  | cons c rest ih =>
      by_cases hc : c = '\r' ∧ IsLineEnd rest
      · refine iff_of_false (dropReturns_cons_ne hc) fun h => ?_
        have left : dropReturns rest = rest := ih.2 fun front back hrest =>
          h (c :: front) back (by rw [hrest, List.cons_append])
        -- the next character can only be a carriage return, which goes as well
        obtain ⟨d, hd, hne⟩ := h [] rest (by rw [hc.1, List.nil_append])
        obtain ⟨behind, rfl⟩ := List.head?_eq_some_iff.1 hd
        exact dropReturns_cons_ne (hc.2.of_cons hne) left
      · rw [dropReturns, if_neg hc, List.cons.injEq, and_iff_right rfl, ih]
        constructor
        · intro h front back htext
          cases front with
          | nil =>
              obtain ⟨rfl, rfl⟩ := List.cons.inj htext
              by_contra hnone
              push Not at hnone
              exact hc ⟨rfl, isLineEnd_of_head? hnone⟩
          | cons d front =>
              rw [List.cons_append, List.cons.injEq] at htext
              exact h front back htext.2
        · intro h front back hrest
          exact h (c :: front) back (by rw [hrest, List.cons_append])

/-! ## Shown lines -/

/-- The shown lines of a text, from the first to the last. -/
def shownLines (source : String) : List String :=
  (List.range (newlines source.toList + 1)).map fun place : ℕ => lineText source (place + 1)

/-- The shown lines are the lines without the carriage returns at their ends. -/
theorem shownLines_eq (source : String) :
    shownLines source = (splitLines source.toList).map fun line =>
      String.ofList (stripTrailing (· == '\r') line) := by
  apply List.ext_getElem
  · simp [shownLines, length_splitLines]
  · intro place hplace hline
    have positive : (0 : ℤ) < (place : ℤ) + 1 := by omega
    have index : ((place : ℤ) + 1).toNat - 1 = place := by omega
    rw [List.length_map] at hline
    simp only [shownLines, List.getElem_map, List.getElem_range, lineText, if_pos positive, index,
      List.getElem?_eq_getElem hline]

/-- The shown lines with newlines between them are the text without the carriage returns at the ends
of its lines. -/
theorem intercalate_shownLines (source : String) :
    String.intercalate "\n" (shownLines source) = String.ofList (dropReturns source.toList) := by
  have whole := dropReturns_intercalate fun line (hline : line ∈ splitLines source.toList) =>
    not_mem_of_mem_pieces hline
  have texts : (shownLines source).map String.toList =
      (splitLines source.toList).map (stripTrailing (· == '\r')) := by
    rw [shownLines_eq, List.map_map]
    exact List.map_congr_left fun line _ => String.toList_ofList
  rw [intercalate_splitLines] at whole
  rw [← String.toList_inj, String.toList_intercalate, texts, whole]
  exact String.toList_ofList.symm

/-- No shown line ends in a carriage return. -/
theorem getLast?_lineText_ne (source : String) (line : ℤ) :
    (lineText source line).toList.getLast? ≠ some '\r' := by
  unfold lineText
  split
  · split
    · next text _ =>
      rw [String.toList_ofList]
      intro hlast
      have stripped : ∀ c ∈ (stripTrailing (· == '\r') text).getLast?, (c == '\r') = false :=
        (stripTrailing_eq_iff.1 rfl).2
      simpa using stripped _ hlast
    · simp
  · simp

/-- What holds no newline is shown on one line, behind all that stands between it and the newline in
front of it, if it does not end in a carriage return. -/
theorem lineText_of_newline_not_mem {source : String} {front part back : List Char}
    (h : source.toList = front ++ (part ++ back)) (hpart : '\n' ∉ part)
    (hlast : ∃ c ∈ part.getLast?, c ≠ '\r') :
    ∃ behind, (lineText source (newlines front + 1)).toList =
      lastLine front ++ (part ++ behind) := by
  obtain ⟨c, hc, hreturn⟩ := hlast
  have inside : ∀ d ∈ part, (d != '\n') = true := by
    intro d hd
    simpa using fun hnewline : d = '\n' => hpart (hnewline ▸ hd)
  have read : firstLine (part ++ back) = part ++ firstLine back :=
    List.takeWhile_append_of_pos inside
  have kept : stripTrailing (· == '\r') (lastLine front ++ part) = lastLine front ++ part := by
    refine stripTrailing_eq_iff.2 ⟨⟨[], by simp, by simp⟩, ?_⟩
    intro d hd
    rw [List.getLast?_append, Option.mem_def.1 hc, Option.some_or, Option.mem_some] at hd
    simpa [← hd] using hreturn
  obtain ⟨behind, hbehind⟩ :=
    stripTrailing_prefix_append (· == '\r') (lastLine front ++ part) (firstLine back)
  refine ⟨behind, ?_⟩
  have place : (newlines front : ℤ) + 1 = ((1 + newlines front : ℕ) : ℤ) := by omega
  rw [place, lineText_eq h, String.toList_ofList, read, ← List.append_assoc, ← hbehind, kept,
    List.append_assoc]

/-- The shown lines put together with newlines are the text without the runs of carriage returns
that stand directly before a newline or at the end, so the text itself if there are none.  No line
holds a newline or ends in a carriage return, and outside the text every line is empty.  Nothing but
a newline ends a line: a part of the text that holds none, and does not end in a carriage return, is
shown as it is, on the line that the newlines in front of it count and in its column. -/
theorem lineText_rejoins (source : String) :
    String.intercalate "\n" (shownLines source) = String.ofList (dropReturns source.toList) ∧
      (String.intercalate "\n" (shownLines source) = source ↔
        ∀ front back, source.toList = front ++ '\r' :: back → ∃ c ∈ back.head?, c ≠ '\n') ∧
      (∀ line : ℤ, '\n' ∉ (lineText source line).toList ∧
        (lineText source line).toList.getLast? ≠ some '\r') ∧
      (∀ line : ℤ, line < 1 ∨ (newlines source.toList : ℤ) + 1 < line →
        lineText source line = "") ∧
      ∀ front part back : List Char, source.toList = front ++ (part ++ back) → '\n' ∉ part →
        (∃ c ∈ part.getLast?, c ≠ '\r') →
          ∃ behind, (lineText source (newlines front + 1)).toList =
            lastLine front ++ (part ++ behind) := by
  refine ⟨intercalate_shownLines source, ?_, ?_, ?_, ?_⟩
  · rw [intercalate_shownLines, ← String.toList_inj, String.toList_ofList, dropReturns_eq_self_iff]
  · exact fun line => ⟨newline_not_mem_lineText source line, getLast?_lineText_ne source line⟩
  · exact fun line => lineText_of_not_mem
  · intro front part back h hpart hlast
    exact lineText_of_newline_not_mem h hpart hlast

/-- A carriage return and a line separator inside a line, and carriage returns at its end. -/
theorem lineText_rejoins_separators :
    String.intercalate "\n" (shownLines "a\r\u2028b\r\r\nc") = "a\r\u2028b\nc" ∧
      lineText "a\r\u2028b\r\r\nc" 3 = "" ∧
      ∃ behind, (lineText "a\r\u2028b\r\r\nc" 1).toList = ['a', '\r', '\u2028', 'b'] ++ behind := by
  have rejoined := lineText_rejoins "a\r\u2028b\r\r\nc"
  obtain ⟨behind, hbehind⟩ := rejoined.2.2.2.2 [] ['a', '\r', '\u2028', 'b'] ['\r', '\r', '\n', 'c']
    (by decide) (by decide) ⟨'b', rfl, by decide⟩
  have first : (newlines [] : ℤ) + 1 = 1 := by decide
  rw [first, lastLine, List.rtakeWhile_nil, List.nil_append] at hbehind
  have dropped : String.ofList (dropReturns "a\r\u2028b\r\r\nc".toList) = "a\r\u2028b\nc" := by
    decide +kernel
  exact ⟨rejoined.1.trans dropped, rejoined.2.2.2.1 3 (by decide +kernel), behind, hbehind⟩

end Lox
