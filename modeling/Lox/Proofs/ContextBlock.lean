import Lox.Diagnostic
import Lox.Proofs.JsonReader

/-!
# Blocks that quote a line

A block names its message and its place on lines of their own, and quotes the line it is about
between two lines that hold nothing but the gutter.  The quoted line is a line, so wherever the
message and the name of the source hold newlines, it is found on the line before the last.

Main results:

- Theorem `Diagnostic.splitLines_formatContext`: the lines of a block.
- Theorem `Diagnostic.exists_splitLines_formatContext`: the line before the last quotes the source.
-/

namespace Lox

/-- Nothing but digits and a minus is in the text of an integer. -/
theorem not_mem_toString {c : Char} (hc : c ≠ '-' ∧ c.isDigit = false) (n : Int) :
    c ∉ (toString n).toList := by
  intro h
  rcases Json.eq_minus_or_isDigit_of_mem_toString h with hminus | hdigit
  · exact hc.1 hminus
  · exact Bool.false_ne_true (hc.2.symm.trans hdigit)

namespace Diagnostic

/-- What stands in front of the bars and the arrow of a block. -/
def gutter (d : Diagnostic) : List Char :=
  List.replicate ((toString d.line).length + 1) ' '

/-- What a block says about the place of its line. -/
def placeLine (d : Diagnostic) (filename : String) : List Char :=
  d.gutter ++ ("--> ".toList ++ (filename.toList ++ ':' :: (toString d.line).toList))

/-- The line of a block that quotes its source. -/
def quoteLine (d : Diagnostic) (source : String) : List Char :=
  (toString d.line).toList ++ (" | ".toList ++ (lineText source d.line).toList)

/-- The lines of a block: those of the message, those of the place, and the quoted line between two
bars. -/
theorem splitLines_formatContext (d : Diagnostic) (source filename : String) :
    splitLines (d.formatContext source filename).toList =
      splitLines ("error: ".toList ++ d.message.toList) ++
        (splitLines (d.placeLine filename) ++
          [d.gutter ++ ['|'], d.quoteLine source, d.gutter ++ ['|']]) := by
  have spelled : (d.formatContext source filename).toList =
      ("error: ".toList ++ d.message.toList) ++ '\n' :: (d.placeLine filename ++
        '\n' :: ((d.gutter ++ ['|']) ++ '\n' :: (d.quoteLine source ++
          '\n' :: (d.gutter ++ ['|'])))) := by
    unfold formatContext placeLine quoteLine gutter
    simp
  have bar : '\n' ∉ d.gutter ++ ['|'] := by
    simp [gutter, List.mem_replicate]
  have quoted : '\n' ∉ d.quoteLine source := by
    have mark : '\n' ∉ " | ".toList := by simp
    simp only [quoteLine, List.mem_append, not_or]
    exact ⟨not_mem_toString (by decide) d.line, mark, newline_not_mem_lineText source d.line⟩
  rw [spelled, splitLines, pieces_append_separator, pieces_append_separator,
    pieces_append_cons _ bar, pieces_append_cons _ quoted, pieces_of_not_mem bar]
  rfl

/-- A block quotes its source on the line before the last. -/
theorem exists_splitLines_formatContext (d : Diagnostic) (source filename : String) :
    ∃ above below, splitLines (d.formatContext source filename).toList =
      above ++ [d.quoteLine source, below] := by
  refine ⟨splitLines ("error: ".toList ++ d.message.toList) ++
    (splitLines (d.placeLine filename) ++ [d.gutter ++ ['|']]), d.gutter ++ ['|'], ?_⟩
  rw [d.splitLines_formatContext source filename, List.append_assoc, List.append_assoc,
    List.singleton_append]

end Diagnostic

end Lox
