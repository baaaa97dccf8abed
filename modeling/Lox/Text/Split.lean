/-!
# Splitting texts

A text is cut at every occurrence of a separating character, so it has one piece more than it has
separators, and no piece holds one.

Main results:

- `length_pieces`: there is one piece more than there are separators.
- `not_mem_of_mem_pieces`: no piece holds a separator.
- `pieces_append_separator`: at a separator the pieces of a text are those of its two sides.
- `pieces_append_cons`: a separator ends one piece and starts the next.
- `span_eq`: a run of characters is taken off a text up to the first character that does not go on
  with it.
-/

namespace Lox

/-- Puts one character in front of the first piece; a separator starts a piece of its own. -/
def consPiece (separator c : Char) (parts : List (List Char)) : List (List Char) :=
  if c = separator then [] :: parts
  else match parts with
    | [] => [[c]]
    | part :: others => (c :: part) :: others

/-- The pieces of a text between the separators. -/
def pieces (separator : Char) (text : List Char) : List (List Char) :=
  text.foldr (consPiece separator) [[]]

/-- There is one piece more than there are separators. -/
theorem length_pieces (separator : Char) (text : List Char) :
    (pieces separator text).length = text.count separator + 1 := by
  induction text with
  | nil => rfl
  | cons c rest ih =>
      simp only [pieces, List.foldr_cons] at ih ⊢
      by_cases h : c = separator
      · simp [consPiece, h, ih]
      · cases hparts : rest.foldr (consPiece separator) [[]] with
        | nil => simp [hparts] at ih
        | cons part parts =>
            simpa [consPiece, h, hparts] using ih

/-- A text without the separator is a single piece. -/
theorem pieces_of_not_mem {separator : Char} {text : List Char} (h : separator ∉ text) :
    pieces separator text = [text] := by
  induction text with
  | nil => rfl
  | cons c rest ih =>
      simp only [List.mem_cons, not_or] at h
      have tail := ih h.2
      simp only [pieces, List.foldr_cons] at tail ⊢
      rw [tail, consPiece, if_neg (Ne.symm h.1)]

/-- No piece holds a separator. -/
theorem not_mem_of_mem_pieces {separator : Char} {text piece : List Char}
    (h : piece ∈ pieces separator text) : separator ∉ piece := by
  induction text generalizing piece with
  | nil =>
      obtain rfl : piece = [] := by simpa [pieces] using h
      exact List.not_mem_nil
  | cons c rest ih =>
      simp only [pieces, List.foldr_cons, consPiece] at ih h
      split at h
      · rcases List.mem_cons.1 h with rfl | h
        · exact List.not_mem_nil
        · exact ih h
      · next hc =>
        split at h
        · obtain rfl : piece = [c] := by simpa using h
          simpa using Ne.symm hc
        · next part others hparts =>
          rw [hparts] at ih
          rcases List.mem_cons.1 h with rfl | h
          · simp [Ne.symm hc, ih List.mem_cons_self]
          · exact ih (List.mem_cons_of_mem part h)

/-- A separator stands behind the pieces of the text in front of it and in front of those of the
text behind it. -/
theorem pieces_append_separator (separator : Char) (front back : List Char) :
    pieces separator (front ++ separator :: back) =
      pieces separator front ++ pieces separator back := by
  induction front with
  | nil => simp [pieces, consPiece]
  | cons c rest ih =>
      have some_piece := length_pieces separator rest
      simp only [pieces, List.cons_append, List.foldr_cons] at ih some_piece ⊢
      rw [ih]
      by_cases h : c = separator
      · simp [consPiece, h]
      · cases hparts : rest.foldr (consPiece separator) [[]] with
        | nil => simp [hparts] at some_piece
        | cons part others => simp [consPiece, h]

/-- A separator ends one piece and starts the next. -/
theorem pieces_append_cons {separator : Char} {front : List Char} (back : List Char)
    (h : separator ∉ front) :
    pieces separator (front ++ separator :: back) = front :: pieces separator back := by
  rw [pieces_append_separator, pieces_of_not_mem h, List.singleton_append]

/-- A run that the text behind does not go on is taken off as it is. -/
theorem span_eq {p : Char → Bool} {run rest : List Char} (inside : ∀ c ∈ run, p c = true)
    (stop : ∀ c ∈ rest.head?, p c = false) :
    (run ++ rest).takeWhile p = run ∧ (run ++ rest).dropWhile p = rest := by
  rw [List.takeWhile_append_of_pos inside, List.dropWhile_append_of_pos inside]
  cases rest with
  | nil => simp
  | cons c rest => simp [stop c rfl]

end Lox
