import Lox.Text.Split

/-!
# Lines

A text is divided into lines by newlines and by nothing else, so it always has one line more than it
has newlines.  A line is shown without the carriage returns at its end.

Main results:

- `length_splitLines`: there is one line more than there are newlines.
- `stripTrailing_eq_iff`: stripping leaves the one front part that does not end in what is stripped
  off.
- `stripTrailing_append`: a text in two parts is stripped at its back first.
- `newline_not_mem_lineText`: no line holds a newline.
- `lineText_of_not_mem`: outside the text every line is empty.
-/

namespace Lox

/-- The number of newlines in a text. -/
def newlines (text : List Char) : Nat :=
  text.count '\n'

/-- The lines of a text. -/
def splitLines (text : List Char) : List (List Char) :=
  pieces '\n' text

/-- A text without the given characters at its end. -/
def stripTrailing (p : Char → Bool) (text : List Char) : List Char :=
  (text.reverse.dropWhile p).reverse

/-- What is stripped off the end of a text passes the test. -/
theorem exists_stripTrailing (p : Char → Bool) (text : List Char) :
    ∃ gap, text = stripTrailing p text ++ gap ∧ ∀ c ∈ gap, p c = true := by
  refine ⟨(text.reverse.takeWhile p).reverse, ?_, ?_⟩
  · rw [stripTrailing, ← List.reverse_append, List.takeWhile_append_dropWhile,
      List.reverse_reverse]
  · intro c hc
    exact List.all_eq_true.1 List.all_takeWhile c (List.mem_reverse.1 hc)

/-- A text is stripped to its front if the front does not end in what is stripped and everything
behind it is stripped. -/
theorem stripTrailing_eq_iff {p : Char → Bool} {text front : List Char} :
    stripTrailing p text = front ↔
      (∃ gap, text = front ++ gap ∧ ∀ c ∈ gap, p c = true) ∧
        ∀ c ∈ front.getLast?, p c = false := by
  constructor
  · rintro rfl
    refine ⟨exists_stripTrailing p text, ?_⟩
    intro c hc
    have stop := List.head?_dropWhile_not p text.reverse
    rw [stripTrailing, List.getLast?_reverse] at hc
    rw [Option.mem_def.1 hc] at stop
    exact stop
  · rintro ⟨⟨gap, rfl, hgap⟩, hlast⟩
    have inside : ∀ c ∈ gap.reverse, p c = true := fun c hc => hgap c (List.mem_reverse.1 hc)
    have stop : ∀ c ∈ front.reverse.head?, p c = false := by
      rwa [List.head?_reverse]
    rw [stripTrailing, List.reverse_append, (span_eq inside stop).2, List.reverse_reverse]

/-- Stripping a text in two parts.  The front is touched only if nothing of the back is left. -/
theorem stripTrailing_append (p : Char → Bool) (front back : List Char) :
    stripTrailing p (front ++ back) =
      if stripTrailing p back = [] then stripTrailing p front
      else front ++ stripTrailing p back := by
  simp only [stripTrailing, List.reverse_append, List.dropWhile_append, List.isEmpty_iff,
    List.reverse_eq_nil_iff]
  split
  · rfl
  · rw [List.reverse_append, List.reverse_reverse]

/-- What is left of a text is the front of what is left if more text follows. -/
theorem stripTrailing_prefix_append (p : Char → Bool) (front back : List Char) :
    stripTrailing p front <+: stripTrailing p (front ++ back) := by
  rw [stripTrailing_append]
  split
  · exact List.prefix_rfl
  · obtain ⟨gap, hgap, -⟩ := exists_stripTrailing p front
    exact ⟨gap ++ stripTrailing p back, by rw [← List.append_assoc, ← hgap]⟩

/-- The line of the given number, counted from one, without the carriage returns at its end.  Lines
outside the text are empty. -/
def lineText (source : String) (line : Int) : String :=
  if 0 < line then
    match (splitLines source.toList)[line.toNat - 1]? with
    | some text => String.ofList (stripTrailing (· == '\r') text)
    | none => ""
  else ""

/-- There is one line more than there are newlines. -/
theorem length_splitLines (text : List Char) :
    (splitLines text).length = newlines text + 1 :=
  length_pieces '\n' text

/-- Outside the text every line is empty. -/
theorem lineText_of_not_mem {source : String} {line : Int}
    (h : line < 1 ∨ (newlines source.toList + 1 : Int) < line) : lineText source line = "" := by
  unfold lineText
  split
  · rw [List.getElem?_eq_none]
    rw [length_splitLines]
    omega
  · rfl

/-- No line holds a newline. -/
theorem newline_not_mem_lineText (source : String) (line : Int) :
    '\n' ∉ (lineText source line).toList := by
  unfold lineText
  split
  · split
    · next text htext =>
      obtain ⟨gap, hgap, -⟩ := exists_stripTrailing (· == '\r') text
      rw [String.toList_ofList]
      intro hnewline
      apply not_mem_of_mem_pieces (List.mem_of_getElem? htext)
      rw [hgap]
      exact List.mem_append_left gap hnewline
    · exact List.not_mem_nil
  · exact List.not_mem_nil

end Lox
