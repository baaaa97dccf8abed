import Lox.Proofs.BasicStrings
import Lox.Toml.Document
import Mathlib.Data.List.Forall2

/-!
# Writing documents

A document of TOML may be written line by line: the header of a table, or the name of an entry with
its text as a basic string.  Read again, each line gives its statement, whatever follows.

Main results:

- Theorem `Toml.key?_bare`: a bare name is read as a key.
- Theorems `Toml.isLine_header` and `Toml.Quoting.isLine_entry`: headers and entries are read as
  statements.
- Theorem `Toml.statements?_flatten`: a text of lines is read line by line.
- Theorem `Toml.Table.ofText?_flatten`: a text of lines is the document that they build.
-/

namespace Lox.Toml

/-! ## Blanks -/

/-- A space does not count. -/
@[simp] theorem skipBlank_space (rest : List Char) : skipBlank (' ' :: rest) = skipBlank rest :=
  List.dropWhile_cons_of_pos rfl

/-- Nothing is left out in front of a character that is no blank. -/
theorem skipBlank_of_not {c : Char} (h : isBlank c = false) (rest : List Char) :
    skipBlank (c :: rest) = c :: rest :=
  List.dropWhile_cons_of_neg (by simp [h])

/-! ## Names -/

/-- A name that needs no quotes. -/
structure IsBare (name : String) : Prop where
  ne_empty : name ≠ ""
  isBareKeyChar_of_mem : ∀ c ∈ name.toList, isBareKeyChar c = true

instance (name : String) : Decidable (IsBare name) :=
  decidable_of_iff (name ≠ "" ∧ name.toList.all isBareKeyChar = true)
    ⟨fun h => ⟨h.1, List.all_eq_true.1 h.2⟩,
      fun h => ⟨h.ne_empty, List.all_eq_true.2 h.isBareKeyChar_of_mem⟩⟩

/-- A bare name starts with a character that starts neither white space, a comment nor a header. -/
theorem IsBare.exists_head {name : String} (h : IsBare name) :
    ∃ c rest, name.toList = c :: rest ∧ isBlank c = false ∧ c ≠ '\n' ∧ c ≠ '#' ∧ c ≠ '[' := by
  obtain ⟨c, rest, hname⟩ := List.exists_cons_of_ne_nil (mt String.toList_eq_nil_iff.1 h.ne_empty)
  have hc := h.isBareKeyChar_of_mem c (hname ▸ List.mem_cons_self)
  have apart {d : Char} (hd : isBareKeyChar d = false) : c ≠ d := by
    rintro rfl
    rw [hc] at hd
    cases hd
  refine ⟨c, rest, hname, ?_, apart rfl, apart rfl, apart rfl⟩
  rw [isBlank, Bool.or_eq_false_iff, beq_eq_false_iff_ne, beq_eq_false_iff_ne]
  exact ⟨apart rfl, apart rfl⟩

/-- No carriage return stands in a bare name. -/
theorem IsBare.return_not_mem {name : String} (h : IsBare name) : '\r' ∉ name.toList := by
  intro hreturn
  cases h.isBareKeyChar_of_mem _ hreturn

/-- A bare name is a key by itself, unless it goes on or a point follows. -/
theorem key?_bare {name : String} (h : IsBare name) (rest : List Char)
    (stop : ∀ c ∈ rest.head?, isBareKeyChar c = false)
    (single : (skipBlank rest).head? ≠ some '.') :
    key? (name.toList ++ rest) = some ([name], skipBlank rest) := by
  obtain ⟨taken, left⟩ := span_eq h.isBareKeyChar_of_mem stop
  have nonempty : name.toList ≠ [] := mt String.toList_eq_nil_iff.1 h.ne_empty
  have first : name? (name.toList ++ rest) = some (name, rest) := by
    simp [name?, taken, left, nonempty]
  rw [key?, first]
  dsimp only
  split
  · next onward hpoint => simp [hpoint] at single
  · rfl

/-! ## Lines -/

/-- The line of a header. -/
def header (name : String) : List Char :=
  '[' :: (name.toList ++ [']', '\n'])

/-- The line of an entry that is a text. -/
def Quoting.entry (quoting : Quoting) (name text : String) : List Char :=
  name.toList ++ ' ' :: '=' :: ' ' :: ((quoting.quote text).toList ++ ['\n'])

/-- A line that is read as a statement, whatever follows.  It holds no carriage return, which might
not count. -/
structure IsLine (text : List Char) (statement : Statement) : Prop where
  ne_nil : text ≠ []
  return_not_mem : '\r' ∉ text
  line?_append : ∀ rest, line? (text ++ rest) = some (some statement, rest)

/-- A statement with a newline behind it makes a line. -/
theorem line?_of_statement? {c : Char} {text rest : List Char} {statement : Statement}
    (blank : isBlank c = false) (newline : c ≠ '\n') (comment : c ≠ '#')
    (h : statement? (c :: text) = some (statement, '\n' :: rest)) :
    line? (c :: text) = some (some statement, rest) := by
  have ended : endLine? ('\n' :: rest) = some rest := by
    simp [endLine?, skipBlank_of_not, isBlank, skipComment?]
  simp [line?, skipBlank_of_not blank, newline, comment, h, ended]

/-- The header of a table is read as such. -/
theorem isLine_header {name : String} (h : IsBare name) :
    IsLine (header name) (.openTable [name]) where
  ne_nil := List.cons_ne_nil _ _
  return_not_mem := by simp [header, h.return_not_mem]
  line?_append := by
    intro rest
    obtain ⟨c, more, hname, hblank, -, -, hbracket⟩ := h.exists_head
    have closing : skipBlank (']' :: '\n' :: rest) = ']' :: '\n' :: rest :=
      skipBlank_of_not (by decide) _
    have key := key?_bare h (']' :: '\n' :: rest) (by simp [isBareKeyChar])
      (by simp [closing])
    have line : header name ++ rest = '[' :: c :: (more ++ ']' :: '\n' :: rest) := by
      simp [header, hname]
    rw [closing, hname, List.cons_append] at key
    rw [line]
    refine line?_of_statement? (by decide) (by decide) (by decide) ?_
    simp [statement?, hbracket, skipBlank_of_not hblank, key]

/-- An entry that is a text is read as such. -/
theorem Quoting.isLine_entry (quoting : Quoting) {name : String} (h : IsBare name)
    (text : String) : IsLine (quoting.entry name text) (.assign [name] (.string text)) where
  ne_nil := List.append_ne_nil_of_right_ne_nil _ (List.cons_ne_nil _ _)
  return_not_mem := by simp [entry, h.return_not_mem, quoting.return_not_mem_quote]
  line?_append := by
    intro rest
    obtain ⟨c, more, hname, hblank, hnewline, hcomment, hbracket⟩ := h.exists_head
    have value := quoting.value?_quote text ('\n' :: rest) (by simp)
    obtain ⟨behind, hquoted⟩ :
        ∃ behind, (quoting.quote text).toList ++ '\n' :: rest = '\x22' :: behind :=
      ⟨_, by rw [quoting.toList_quote, List.cons_append]⟩
    have equal : skipBlank (' ' :: '=' :: ' ' :: '\x22' :: behind) =
        '=' :: ' ' :: '\x22' :: behind :=
      (skipBlank_space _).trans (skipBlank_of_not (by decide) _)
    have start : skipBlank (' ' :: '\x22' :: behind) = '\x22' :: behind :=
      (skipBlank_space _).trans (skipBlank_of_not (by decide) _)
    have key := key?_bare h (' ' :: '=' :: ' ' :: '\x22' :: behind)
      (by simp [isBareKeyChar]) (by simp [equal])
    have line : quoting.entry name text ++ rest =
        c :: (more ++ ' ' :: '=' :: ' ' :: '\x22' :: behind) := by
      simp [entry, hname, ← hquoted]
    rw [equal, hname, List.cons_append] at key
    rw [hquoted] at value
    rw [line]
    refine line?_of_statement? hblank hnewline hcomment ?_
    simp [statement?, hbracket, key, start, value]

/-- A text of lines is read line by line. -/
theorem statements?_flatten {texts : List (List Char)} {found : List Statement}
    (h : List.Forall₂ IsLine texts found) : statements? texts.flatten = some found := by
  induction h with
  | nil => exact statements_nil
  | @cons text statement texts found hline _ ih =>
      have shorter : texts.flatten.length < (text ++ texts.flatten).length := by
        have positive := List.length_pos_iff.2 hline.ne_nil
        rw [List.length_append]
        omega
      rw [List.flatten_cons, statements?, hline.line?_append]
      dsimp only
      rw [if_pos shorter, ih]
      rfl

/-- No carriage return stands in a text of lines. -/
theorem return_not_mem_flatten {texts : List (List Char)} {found : List Statement}
    (h : List.Forall₂ IsLine texts found) : '\r' ∉ texts.flatten := by
  induction h with
  | nil => exact List.not_mem_nil
  | cons hline _ ih =>
      rw [List.flatten_cons, List.mem_append, not_or]
      exact ⟨hline.return_not_mem, ih⟩

/-- A text of lines is the document that their statements build. -/
theorem Table.ofText?_flatten {texts : List (List Char)} {found : List Statement}
    {document : Document} (h : List.Forall₂ IsLine texts found)
    (built : found.foldlM Document.carryOut? Document.empty = some document) :
    Table.ofText? (String.ofList texts.flatten) = some document.table := by
  rw [ofText?, String.toList_ofList, joinLineEnds_of_not_mem (return_not_mem_flatten h),
    statements?_flatten h]
  simp [built]

end Lox.Toml
