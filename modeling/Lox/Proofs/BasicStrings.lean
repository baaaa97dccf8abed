import Lox.Toml.Reader
import Mathlib.Data.List.Basic

/-!
# Writing basic strings

Every text can be written as a basic string of TOML that is read as the text: the quote and the
backslash are escaped, and the controls that may not stand in a string are written by their codes.
Further characters may be written so, as long as four digits are enough.

Main results:

- Theorem `Toml.IsCode.ofHex?_eq`: a character is read from its code.
- Theorem `Toml.Quoting.basicBody_written`: what is written for a text is read as the text.
- Theorem `Toml.Quoting.value?_quote`: a written text is read as a value.
-/

namespace Lox.Toml

/-- Four digits are the code of a character, in small letters or in capitals. -/
structure IsCode (digits : List Char) (c : Char) : Prop where
  length_eq : digits.length = 4
  all_isHexDigit : digits.all Numeral.isHexDigit = true
  value_eq : Numeral.value 16 digits = c.toNat

/-- A character is read from its code. -/
theorem IsCode.ofHex?_eq {digits : List Char} {c : Char} (h : IsCode digits c) :
    ofHex? digits = some c := by
  have valid : c.toNat.isValidChar := c.valid
  simp [ofHex?, h.all_isHexDigit, h.value_eq, valid]

/-- Which characters of a text are written by their codes, and how: all controls that may not stand
in a string, and none for which four digits are too few. -/
structure Quoting where
  isCoded : Char → Bool
  digits : Char → List Char
  isCoded_of_isControl : ∀ c, isControl c = true → isCoded c = true
  isCode : ∀ c, isCoded c = true → IsCode (digits c) c

namespace Quoting

/-- The code of a character in capitals. -/
def capitals (c : Char) : List Char :=
  (Numeral.padded 16 4 c.toNat).map Char.toUpper

/-- Four capital digits are the code of a control, and of every character before `0xA0`. -/
theorem isCode_capitals {c : Char} (h : c.toNat < 0xA0) : IsCode (capitals c) c := by
  have codes : ∀ n < 0xA0, let digits := (Numeral.padded 16 4 n).map Char.toUpper
      digits.length = 4 ∧ digits.all Numeral.isHexDigit = true ∧ Numeral.value 16 digits = n := by
    decide +kernel
  obtain ⟨length, digits, value⟩ := codes c.toNat h
  exact ⟨length, digits, value⟩

/-- All controls of the Unicode character database are written by their codes. -/
def controls : Quoting where
  isCoded c := c.toNat < 0x20 || (0x7F ≤ c.toNat && c.toNat < 0xA0)
  digits := capitals
  isCoded_of_isControl := by
    intro c h
    simp only [isControl, Bool.or_eq_true, Bool.and_eq_true, decide_eq_true_eq, beq_iff_eq] at h ⊢
    omega
  isCode := by
    intro c h
    simp only [Bool.or_eq_true, Bool.and_eq_true, decide_eq_true_eq] at h
    exact isCode_capitals (by omega)

variable (quoting : Quoting)

/-- What is written for one character. -/
def written (c : Char) : List Char :=
  if c = '\x22' ∨ c = '\\' then ['\\', c]
  else if quoting.isCoded c then '\\' :: 'u' :: quoting.digits c
  else [c]

/-- A text as a basic string. -/
def quote (text : String) : String :=
  String.ofList ('\x22' :: (text.toList.flatMap quoting.written ++ ['\x22']))

/-- What is written for a character is read as the character. -/
theorem basicBody_written {c : Char} {rest text behind : List Char}
    (h : basicBody rest = some (text, behind)) :
    basicBody (quoting.written c ++ rest) = some (c :: text, behind) := by
  unfold written
  split
  · next hescaped =>
    rcases hescaped with rfl | rfl
    · simp [basicBody, shortEscape?, h]
    · simp [basicBody, shortEscape?, h]
  · next hplain =>
    rw [not_or] at hplain
    split
    · next hcoded =>
      have code := quoting.isCode c hcoded
      obtain ⟨d₁, d₂, d₃, d₄, digits⟩ := List.length_eq_four.1 code.length_eq
      have read := code.ofHex?_eq
      rw [digits] at read ⊢
      simp [basicBody, read, h]
    · next hcoded =>
      have visible : isControl c = false :=
        Bool.eq_false_iff.2 fun hcontrol => hcoded (quoting.isCoded_of_isControl c hcontrol)
      exact basicBody_of_plain visible hplain.1 hplain.2 h

/-- What is written for a text is read as the text. -/
theorem basicBody_flatMap_written (text rest : List Char) :
    basicBody (text.flatMap quoting.written ++ '\x22' :: rest) = some (text, rest) := by
  induction text with
  | nil => exact basicBody_quote rest
  | cons c text ih =>
      rw [List.flatMap_cons, List.append_assoc]
      exact quoting.basicBody_written ih

/-- Something is written for every character, and no bare quote at its beginning. -/
theorem head?_written (c : Char) : ∃ d ∈ (quoting.written c).head?, d ≠ '\x22' := by
  unfold written
  split
  · exact ⟨'\\', rfl, by decide⟩
  · next hplain =>
    split
    · exact ⟨'\\', rfl, by decide⟩
    · exact ⟨c, rfl, fun hquote => hplain (Or.inl hquote)⟩

/-- The characters of a basic string. -/
theorem toList_quote (text : String) :
    (quoting.quote text).toList = '\x22' :: (text.toList.flatMap quoting.written ++ ['\x22']) := by
  rw [quote, String.toList_ofList]

/-- No carriage return stands in a basic string. -/
theorem return_not_mem_quote (text : String) : '\r' ∉ (quoting.quote text).toList := by
  have apart (c : Char) : '\r' ∉ quoting.written c := by
    unfold written
    split
    · next hescaped => rcases hescaped with rfl | rfl <;> decide
    · split
      · next hcoded =>
        intro hreturn
        have digit : '\r' ∈ quoting.digits c := by simpa using hreturn
        cases List.all_eq_true.1 (quoting.isCode c hcoded).all_isHexDigit _ digit
      · next hcoded =>
        intro hreturn
        obtain rfl := List.mem_singleton.1 hreturn
        exact hcoded (quoting.isCoded_of_isControl _ (by decide))
  simp [quoting.toList_quote, apart]

/-- What is written for a text is read as a string, if no further quote follows. -/
theorem string?_quote (text : String) (rest : List Char) (h : rest.head? ≠ some '\x22') :
    string? ((quoting.quote text).toList ++ rest) = some (text.toList, rest) := by
  have body := quoting.basicBody_flatMap_written text.toList rest
  have single (more : List Char) :
      text.toList.flatMap quoting.written ++ '\x22' :: rest ≠ '\x22' :: '\x22' :: more := by
    intro hmore
    cases hchars : text.toList with
    | nil =>
        rw [hchars] at hmore
        obtain rfl := (List.cons.inj hmore).2
        exact h rfl
    | cons c chars =>
        obtain ⟨d, hd, hquote⟩ := quoting.head?_written c
        have first := congrArg List.head? hmore
        rw [hchars, List.flatMap_cons, List.append_assoc, List.head?_append,
          Option.mem_def.1 hd] at first
        exact hquote (Option.some.inj first)
  rw [quoting.toList_quote, List.cons_append, List.append_assoc, List.singleton_append]
  unfold string?
  split
  · next more hmore => exact absurd (List.cons.inj hmore).2 (single more)
  · next hother => cases hother
  · exact body

/-- A written text is read as a value. -/
theorem value?_quote (text : String) (rest : List Char) (h : rest.head? ≠ some '\x22') :
    value? ((quoting.quote text).toList ++ rest) = some (.string text, rest) := by
  have read := quoting.string?_quote text rest h
  rw [quoting.toList_quote, List.cons_append] at read ⊢
  rw [value?, valueWithFuel?]
  · rw [simpleValue?, read]
    simp
  · simp
  · simp

end Quoting

end Lox.Toml
