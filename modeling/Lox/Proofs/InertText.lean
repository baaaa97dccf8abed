import Lox.Proofs.Edits

/-!
# Inert text

Separators and comments mean nothing.  Between two passes a scan does not care how many separators
there are, wherever they go: those behind a comment make it longer, those behind a string without an
end too, and all others are passed over one by one.  Nor does it care for a comment, which hides
nothing but its own text from the segments in front of it, since a newline or the end of the text
makes them stop as well as the slashes did.

Main results:

- Theorem `Fits.delete_comment`: the segments around a comment fit one another without it.
- Theorem `scan_inert`: separators put between two passes and comments taken out change nothing.
-/

namespace Lox

/-! ## Comments -/

section Comments

variable {front back : List Segment} {body : List Char}

/-- Two slashes start a comment, which goes on to the next newline. -/
theorem segments_comment (rest : List Char) :
    segments ('/' :: '/' :: rest) =
      .comment (rest.takeWhile (· != '\n')) :: segments (rest.dropWhile (· != '\n')) := by
  rw [segments, Segment.cut_comment]

/-- The segments around a comment fit one another without it. -/
theorem Fits.delete_comment (h : Fits (front ++ .comment body :: back)) : Fits (front ++ back) := by
  rcases h.right with ⟨-, hnewline, hback⟩
  refine h.replace hback ?_
  intro part behind hstop
  -- a newline stands behind the comment, or nothing at all
  cases hrest : back.flatMap Segment.text with
  | nil =>
      rw [List.append_nil]
      exact hstop.of_append
  | cons c rest =>
      obtain rfl : c = '\n' := hnewline c (by rw [hrest]; rfl)
      exact hstop.blank_instead (List.cons_ne_nil _ _) (Or.inr (Or.inr (Or.inr rfl))) (Or.inl rfl)
        rest

/-- Taking a comment out of a text changes neither the tokens nor the reports. -/
theorem scan_delete_comment (h : Fits (front ++ .comment body :: back)) :
    scan (String.ofList (front.flatMap Segment.text ++ back.flatMap Segment.text)) =
      scan (String.ofList ((front ++ .comment body :: back).flatMap Segment.text)) := by
  rw [← List.flatMap_append, scan, scan, String.toList_ofList, String.toList_ofList,
    segments_flatMap h.delete_comment, segments_flatMap h, tokensFrom_append, tokensFrom_append,
    reportsFrom_append, reportsFrom_append]
  rfl

end Comments

/-! ## Places between two passes -/

/-- The places between two passes over a text, the ones at both its ends among them. -/
def boundaries (source : String) : List Nat :=
  (Cursor.ofSource source :: (Cursor.ofSource source).passes).map Cursor.current

/-- A text is divided at every place between two passes. -/
theorem exists_divides_of_mem_boundaries {source : String} {place : Nat}
    (h : place ∈ boundaries source) :
    ∃ c front, Cursor.Divides source c front ∧ c.current = place := by
  rcases List.mem_map.1 h with ⟨c, hc, hplace⟩
  rcases Cursor.exists_divides hc with ⟨front, hfront⟩
  exact ⟨c, front, hfront, hplace⟩

/-- The first pass starts at the start of the text. -/
theorem zero_mem_boundaries (source : String) : 0 ∈ boundaries source :=
  List.mem_cons_self

/-- The last pass ends at the end of the text. -/
theorem length_mem_boundaries (source : String) : source.toList.length ∈ boundaries source := by
  rw [← (Cursor.inStep_ofSource source).last.2]
  exact List.mem_map_of_mem (Cursor.ofSource source).last_mem

namespace Cursor.Divides

variable {source : String} {c : Cursor} {front : List Segment}

/-- Separators at the place of a cursor change neither the tokens nor the reports. -/
theorem scan_insert (h : Divides source c front) {gap : List Char}
    (hgap : ∀ d ∈ gap, Segment.isSeparator d = true) :
    scan (String.ofList (source.toList.take c.current ++ gap ++ source.toList.drop c.current)) =
      scan source := by
  have inserted := scan_insert_separators h.fits hgap
  rwa [text_segments, h.text_front, h.ahead_eq, List.take_append_drop, String.ofList_toList]
    at inserted

/-- A comment at the place of a cursor may be taken out. -/
theorem scan_delete (h : Divides source c front)
    (hslashes : ['/', '/'] <+: source.toList.drop c.current) :
    scan (String.ofList (source.toList.take c.current ++
        (source.toList.drop c.current).dropWhile (· != '\n'))) =
      scan source := by
  rcases hslashes with ⟨rest, hrest⟩
  have hahead : c.ahead = '/' :: '/' :: rest := h.ahead_eq.trans hrest.symm
  have behind : (source.toList.drop c.current).dropWhile (· != '\n') =
      rest.dropWhile (· != '\n') := by
    rw [← hrest]
    rfl
  have hfits := h.fits
  have spelled := text_segments source.toList
  rw [hahead, segments_comment] at hfits
  rw [h.segments_eq, hahead, segments_comment] at spelled
  have deleted := scan_delete_comment hfits
  rwa [spelled, text_segments, h.text_front, ← behind, String.ofList_toList] at deleted

end Cursor.Divides

/-- Separators and comments are inert.  The places between two passes over a text include both its
ends.  At each of them spaces, tabs and carriage returns may be put into the text, and a comment
that stands there may be taken out of it up to the next newline or to the end: the scan has the same
tokens and makes the same reports. -/
theorem scan_inert (source : String) :
    0 ∈ boundaries source ∧ source.toList.length ∈ boundaries source ∧
      ∀ place ∈ boundaries source,
        (∀ gap : List Char, (∀ c ∈ gap, c = ' ' ∨ c = '\t' ∨ c = '\r') →
          scan (String.ofList (source.toList.take place ++ gap ++ source.toList.drop place)) =
            scan source) ∧
        (['/', '/'] <+: source.toList.drop place →
          scan (String.ofList (source.toList.take place ++
              (source.toList.drop place).dropWhile (· != '\n'))) =
            scan source) := by
  refine ⟨zero_mem_boundaries source, length_mem_boundaries source, ?_⟩
  intro place hplace
  rcases exists_divides_of_mem_boundaries hplace with ⟨c, front, hfront, rfl⟩
  refine ⟨?_, hfront.scan_delete⟩
  intro gap hgap
  refine hfront.scan_insert ?_
  intro d hd
  rcases hgap d hd with rfl | rfl | rfl <;> rfl

/-- Separators behind the open string at the end of a text, and a comment behind a point taken out
of it. -/
theorem scan_inert_open_string :
    let source := "1.//x\n\"y"
    boundaries source = [0, 1, 2, 5, 6, 8] ∧
      scan "1.//x\n\"y \r\t" = scan source ∧ scan "1.\n\"y" = scan source := by
  intro source
  obtain ⟨-, -, inert⟩ := scan_inert source
  have places : boundaries source = [0, 1, 2, 5, 6, 8] := by decide +kernel
  refine ⟨places, ?_, ?_⟩
  · have inserted := (inert 8 (by simp [places])).1 [' ', '\r', '\t'] (by simp)
    have mended : String.ofList (source.toList.take 8 ++ [' ', '\r', '\t'] ++
        source.toList.drop 8) = "1.//x\n\"y \r\t" := by decide +kernel
    rwa [mended] at inserted
  · have deleted := (inert 2 (by simp [places])).2 (by decide +kernel)
    have mended : String.ofList (source.toList.take 2 ++
        (source.toList.drop 2).dropWhile (· != '\n')) = "1.\n\"y" := by decide +kernel
    rwa [mended] at deleted

end Lox
