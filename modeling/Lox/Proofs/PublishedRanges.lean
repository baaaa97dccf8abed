import Lox.Proofs.Publications

/-!
# Ranges in code units

An editor counts the columns of a line in UTF-16 code units.  A character has one of them, or two if
it lies beyond the basic plane.  A published range ends at the number of characters of its line, so
for the editor it covers the line exactly if no character on the line has two code units.
Otherwise it ends too early, by one unit for each of them.

Main results:

- Theorem `length_codeUnits`: how many code units a text has.
- Theorem `forall₂_reaches`: how far the ranges of a document reach.
- Theorem `exists_range_within_line`: some ranges do not reach the ends of their lines.
-/

namespace Lox

/-- The UTF-16 code units of a text. -/
def codeUnits (text : String) : List ℕ :=
  text.toList.flatMap fun c => Json.codeUnits c.toNat

/-- A character lies beyond the basic plane. -/
def isSupplementary (c : Char) : Bool :=
  decide (0x10000 ≤ c.toNat)

/-- A character has two code units if it lies beyond the basic plane, and one otherwise. -/
theorem length_codeUnits_char (c : Char) :
    (Json.codeUnits c.toNat).length = if isSupplementary c then 2 else 1 := by
  unfold Json.codeUnits isSupplementary
  by_cases h : c.toNat < 0x10000
  · simp [h]
  · simp [h, Nat.le_of_not_lt h]

/-- A text has a code unit for each character and one more for each beyond the basic plane. -/
theorem length_codeUnits (text : String) :
    (codeUnits text).length = text.length + text.toList.countP isSupplementary := by
  rw [codeUnits, ← String.length_toList]
  induction text.toList with
  | nil => rfl
  | cons c rest ih =>
      rw [List.flatMap_cons, List.length_append, length_codeUnits_char, ih, List.length_cons,
        List.countP_cons]
      split
      · omega
      · omega

/-- How far a range from the start of a line reaches.  It ends in front of the end of the line by as
many code units as there are characters beyond the basic plane on the line, so it covers the line
exactly if there are none. -/
structure Reaches (line : String) (endColumn : ℕ) : Prop where
  missing : endColumn + line.toList.countP isSupplementary = (codeUnits line).length
  covers_iff : endColumn = (codeUnits line).length ↔ ∀ c ∈ line.toList, c.toNat < 0x10000

/-- A range that ends at the number of characters of a line. -/
theorem reaches_length (line : String) : Reaches line line.length where
  missing := (length_codeUnits line).symm
  covers_iff := by
    rw [length_codeUnits, left_eq_add, List.countP_eq_zero]
    simp [isSupplementary]

/-- The diagnostics of a document are its reports, in order, each with a range that reaches as far
as the reported line has characters. -/
theorem forall₂_reaches (source : String) :
    List.Forall₂ (fun report placed => placed.startColumn = 0 ∧
        placed.startLine + 1 = report.line ∧ placed.endLine + 1 = report.line ∧
        Reaches (lineText source report.line) placed.endColumn)
      (scan source).diagnostics (documentDiagnostics source) := by
  rw [documentDiagnostics, List.forall₂_map_right_iff, List.forall₂_same]
  intro report _
  exact ⟨rfl, Int.sub_add_cancel _ _, Int.sub_add_cancel _ _, reaches_length _⟩

/-- Some ranges do not reach the ends of their lines. -/
theorem exists_range_within_line :
    ¬∀ source : String, List.Forall₂ (fun report placed =>
        placed.endColumn = (codeUnits (lineText source report.line)).length)
      (scan source).diagnostics (documentDiagnostics source) := by
  intro h
  have covers := h "😀"
  have report : (scan "😀").diagnostics = [⟨1, "Unexpected character."⟩] := by decide +kernel
  have placed : documentDiagnostics "😀" =
      [⟨0, 0, 0, 1, "Unexpected character.", 1, "loxscan"⟩] := by decide +kernel
  rw [report, placed, List.forall₂_cons] at covers
  have units : (codeUnits (lineText "😀" 1)).length = 2 := by decide +kernel
  have covered : 1 = (codeUnits (lineText "😀" 1)).length := covers.1
  rw [units] at covered
  cases covered

end Lox
