import Lox.Binary64.Decimal
import Lox.Diagnostic
import Lox.Token

/-!
# Segments

A text of the language falls into segments from left to right: lexemes, blanks, newlines, comments,
and two kinds of fault.  A segment is as long as its kind allows: a word takes all word characters
that follow, a number a fraction only if a digit stands behind the point, an operator an equals sign
that it has a form with, a comment everything up to the next newline.  A string runs to the next
quote, over newlines too; without a closing quote it is a fault that takes the rest of the text.
Any character that starts nothing else is a fault by itself.

Main results:

- `text_cut`: a segment and the rest behind it are the text it was cut from.
- `length_rest_cut_lt`: cutting makes the text shorter, so the text is used up after finitely many
  cuts.
- `text_segments`: the segments, one behind the other, are the text.
-/

namespace Lox

/-- A piece of a text, by what it is. -/
inductive Segment where
  | operator (op : Operator)
  | blank (c : Char)
  | newline
  | comment (body : List Char)
  | string (body : List Char)
  | number (whole : List Char) (fraction : Option (List Char))
  | word (text : List Char)
  | unterminated (body : List Char)
  | unexpected (c : Char)
  deriving DecidableEq

namespace Segment

/-- The characters of a segment. -/
def text : Segment → List Char
  | operator op => op.text
  | blank c => [c]
  | newline => ['\n']
  | comment body => '/' :: '/' :: body
  | string body => '"' :: (body ++ ['"'])
  | number whole none => whole
  | number whole (some fraction) => whole ++ '.' :: fraction
  | word text => text
  | unterminated body => '"' :: body
  | unexpected c => [c]

/-- How many lines further the text is behind a segment.  Newlines stand between lexemes, where each
is a segment of its own, and inside strings. -/
def lineBreaks : Segment → Nat
  | newline => 1
  | string body => newlines body
  | unterminated body => newlines body
  | _ => 0

/-! ## Cutting off the first segment -/

/-- Space, carriage return and tab separate lexemes and mean nothing else. -/
def isSeparator (c : Char) : Bool :=
  c == ' ' || c == '\r' || c == '\t'

/-- The rest of a string behind its opening quote, up to the next quote or to the end. -/
def cutString (rest : List Char) : Segment × List Char :=
  let body := rest.takeWhile (· != '"')
  match rest.dropWhile (· != '"') with
  | [] => (.unterminated body, [])
  | _ :: behind => (.string body, behind)

/-- A number that starts with the given digit.  A point belongs to it only if a digit stands behind
the point. -/
def cutNumber (c : Char) (rest : List Char) : Segment × List Char :=
  let whole := c :: rest.takeWhile Char.isDigit
  match rest.dropWhile Char.isDigit with
  | '.' :: d :: behind =>
      if d.isDigit then
        (.number whole (some (d :: behind.takeWhile Char.isDigit)), behind.dropWhile Char.isDigit)
      else (.number whole none, '.' :: d :: behind)
  | behind => (.number whole none, behind)

/-- An operator that starts with the one given, widened by an equals sign where it can be. -/
def cutOperator (op : Operator) (rest : List Char) : Segment × List Char :=
  match op.withEqual?, rest with
  | some wide, '=' :: behind => (.operator wide, behind)
  | _, _ => (.operator op, rest)

/-- Cuts the first segment off a text that starts with the given character. -/
def cut (c : Char) (rest : List Char) : Segment × List Char :=
  if c = '/' ∧ rest.head? = some '/' then
    (.comment (rest.tail.takeWhile (· != '\n')), rest.tail.dropWhile (· != '\n'))
  else match Operator.ofChar? c with
  | some op => cutOperator op rest
  | none =>
      if isSeparator c then (.blank c, rest)
      else if c = '\n' then (.newline, rest)
      else if c = '"' then cutString rest
      else if c.isDigit then cutNumber c rest
      else if isWordStart c then (.word (c :: rest.takeWhile isWordPart), rest.dropWhile isWordPart)
      else (.unexpected c, rest)

/-- A point with a digit behind it goes on a number. -/
theorem cutNumber_of_point {c d : Char} {rest back : List Char}
    (h : rest.dropWhile Char.isDigit = '.' :: d :: back) (hd : d.isDigit = true) :
    cutNumber c rest = (.number (c :: rest.takeWhile Char.isDigit)
      (some (d :: back.takeWhile Char.isDigit)), back.dropWhile Char.isDigit) := by
  simp [cutNumber, h, hd]

/-- Without a point and a digit behind its digits a number is whole. -/
theorem cutNumber_of_no_point {c : Char} {rest : List Char}
    (h : ¬∃ d back, rest.dropWhile Char.isDigit = '.' :: d :: back ∧ d.isDigit = true) :
    cutNumber c rest =
      (.number (c :: rest.takeWhile Char.isDigit) none, rest.dropWhile Char.isDigit) := by
  unfold cutNumber
  split
  · next d back hdrop =>
    have hd : ¬d.isDigit = true := fun hd => h ⟨d, back, hdrop, hd⟩
    rw [if_neg hd, hdrop]
  · rfl

/-- Two slashes start a comment. -/
theorem cut_comment (rest : List Char) :
    cut '/' ('/' :: rest) =
      (.comment (rest.takeWhile (· != '\n')), rest.dropWhile (· != '\n')) := by
  simp [cut]

/-- A character that spells an operator starts one, unless it starts a comment. -/
theorem cut_of_operator {c : Char} {op : Operator} {rest : List Char}
    (hop : Operator.ofChar? c = some op) (hcomment : ¬(c = '/' ∧ rest.head? = some '/')) :
    cut c rest = cutOperator op rest := by
  rw [cut, if_neg hcomment, hop]

/-- A character that spells no operator starts a segment by its class. -/
theorem cut_of_no_operator {c : Char} (hop : Operator.ofChar? c = none) (rest : List Char) :
    cut c rest =
      if isSeparator c then (.blank c, rest)
      else if c = '\n' then (.newline, rest)
      else if c = '"' then cutString rest
      else if c.isDigit then cutNumber c rest
      else if isWordStart c then
        (.word (c :: rest.takeWhile isWordPart), rest.dropWhile isWordPart)
      else (.unexpected c, rest) := by
  have hslash : c ≠ '/' := by
    rintro rfl
    cases hop
  rw [cut, if_neg (fun comment => hslash comment.1), hop]

private theorem text_cutString (rest : List Char) :
    (cutString rest).1.text ++ (cutString rest).2 = '"' :: rest := by
  have whole := List.takeWhile_append_dropWhile (p := (· != '"')) (l := rest)
  unfold cutString
  split
  · next h =>
    rw [h, List.append_nil] at whole
    simp [text, whole]
  · next quote behind h =>
    have found : quote = '"' := by
      have := List.head?_dropWhile_not (· != '"') rest
      simpa [h] using this
    subst found
    rw [h] at whole
    simp [text, whole]

private theorem text_cutNumber (c : Char) (rest : List Char) :
    (cutNumber c rest).1.text ++ (cutNumber c rest).2 = c :: rest := by
  have whole := List.takeWhile_append_dropWhile (p := Char.isDigit) (l := rest)
  unfold cutNumber
  split
  · next d behind h =>
    rw [h] at whole
    split
    · simp [text, whole]
    · simp [text, whole]
  · simp [text, whole]

private theorem text_cutOperator (op : Operator) (rest : List Char) :
    (cutOperator op rest).1.text ++ (cutOperator op rest).2 = op.text ++ rest := by
  unfold cutOperator
  split
  · next h => simp [text, Operator.text_of_withEqual? h]
  · rfl

/-- A segment and the rest behind it are the text it was cut from. -/
theorem text_cut (c : Char) (rest : List Char) :
    (cut c rest).1.text ++ (cut c rest).2 = c :: rest := by
  unfold cut
  split
  · next h =>
    obtain ⟨rfl, hhead⟩ := h
    obtain ⟨behind, rfl⟩ : ∃ behind, rest = '/' :: behind := by
      cases rest with
      | nil => simp at hhead
      | cons d behind => exact ⟨behind, by simpa using hhead⟩
    simp [text, List.takeWhile_append_dropWhile]
  · split
    · next op h =>
      rw [text_cutOperator, Operator.text_of_ofChar? h]
      rfl
    · split
      · simp [text]
      · split
        · next h => simp [text, h]
        · split
          · next h => simpa [h] using text_cutString rest
          · split
            · exact text_cutNumber c rest
            · split
              · simp [text, List.takeWhile_append_dropWhile]
              · simp [text]

/-! ## Cutting a whole text -/

private theorem length_rest_cutOperator (op : Operator) (rest : List Char) :
    (cutOperator op rest).2.length ≤ rest.length := by
  unfold cutOperator
  split <;> simp

private theorem length_rest_cutNumber (c : Char) (rest : List Char) :
    (cutNumber c rest).2.length ≤ rest.length := by
  have shorter := (List.dropWhile_suffix Char.isDigit (l := rest)).length_le
  unfold cutNumber
  split
  · next d behind h =>
    rw [h] at shorter
    split
    · have := (List.dropWhile_suffix Char.isDigit (l := behind)).length_le
      simp only [List.length_cons] at shorter ⊢
      omega
    · exact shorter
  · exact shorter

private theorem length_rest_cutString (rest : List Char) :
    (cutString rest).2.length ≤ rest.length := by
  have shorter := (List.dropWhile_suffix (· != '"') (l := rest)).length_le
  unfold cutString
  split
  · simp
  · next h =>
    rw [h] at shorter
    exact Nat.le_of_succ_le shorter

/-- Cutting makes the text shorter. -/
theorem length_rest_cut_lt (c : Char) (rest : List Char) :
    (cut c rest).2.length < (c :: rest).length := by
  refine Nat.lt_succ_of_le ?_
  unfold cut
  split
  · have := (List.dropWhile_suffix (· != '\n') (l := rest.tail)).length_le
    simp only [List.length_tail] at this
    simp only
    omega
  · split
    · exact length_rest_cutOperator _ rest
    · split
      · exact Nat.le_refl _
      · split
        · exact Nat.le_refl _
        · split
          · exact length_rest_cutString rest
          · split
            · exact length_rest_cutNumber c rest
            · split
              · exact (List.dropWhile_suffix _).length_le
              · exact Nat.le_refl _

end Segment

/-- The segments of a text, from left to right. -/
def segments : List Char → List Segment
  | [] => []
  | c :: rest => (Segment.cut c rest).1 :: segments (Segment.cut c rest).2
termination_by text => text.length
decreasing_by exact Segment.length_rest_cut_lt c rest

/-- The segments, one behind the other, are the text. -/
theorem text_segments (text : List Char) : (segments text).flatMap Segment.text = text := by
  fun_induction segments text with
  | case1 => rfl
  | case2 c rest ih => rw [List.flatMap_cons, ih, Segment.text_cut]

/-! ## What a segment stands for -/

namespace Segment

/-- The number that a numeral denotes: the double precision number nearest to the exact decimal. -/
def numberValue (whole : List Char) (fraction : Option (List Char)) : Binary64 :=
  let places := fraction.getD []
  .ofRatio false (Numeral.value 10 (whole ++ places)) (Numeral.weight 10 places.length)

/-- What a numeral denotes is what its text is read as. -/
theorem ofText?_text_number {whole : List Char} (fraction : Option (List Char))
    (hne : whole ≠ []) (hwhole : ∀ d ∈ whole, d.isDigit = true)
    (hfraction : ∀ places ∈ fraction, ∀ d ∈ places, d.isDigit = true) :
    Binary64.ofText? (number whole fraction).text =
      some (numberValue whole fraction) := by
  cases fraction with
  | none => simpa [numberValue, text] using Binary64.ofText?_digits hne hwhole
  | some places => exact Binary64.ofText?_point hne hwhole (hfraction places rfl)

/-- The token of a segment that starts on the given line, if it is a lexeme. -/
def token? (line : Int) (segment : Segment) : Option Token :=
  let lexeme := String.ofList segment.text
  match segment with
  | operator op => some ⟨.operator op, lexeme, none, line⟩
  | string body => some ⟨.string, lexeme, some (.text (String.ofList body)), line⟩
  | number whole fraction =>
      some ⟨.number, lexeme, some (.number (numberValue whole fraction)), line⟩
  | word text => some ⟨.ofWord text, lexeme, none, line⟩
  | _ => none

/-- The report on a segment that starts on the given line, if it is a fault.  A string without an
end is reported where the text ends. -/
def report? (line : Int) : Segment → Option Diagnostic
  | unexpected _ => some (.ofError line .unexpectedCharacter)
  | unterminated body => some (.ofError (line + newlines body) .unterminatedString)
  | _ => none

end Segment

end Lox
