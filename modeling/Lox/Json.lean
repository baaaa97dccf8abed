import Lox.Numeral

/-!
# Strings in structured output

A string is written in double quotes with ASCII characters only.  The quote, the backslash and the
controls that have a short escape use it; every other character outside printable ASCII is written
by its UTF-16 code units, the delete character included.

Main results:

- `Json.escape_cases`: a character has a short escape, stands for itself or is written by its code
  units.
-/

namespace Lox.Json

/-- One UTF-16 code unit as an escape. -/
def unitEscape (code : Nat) : List Char :=
  '\\' :: 'u' :: Numeral.padded 16 4 code

/-- A code point as escapes of its code units: a surrogate pair beyond the first plane. -/
def codeEscape (code : Nat) : List Char :=
  if code < 0x10000 then unitEscape code
  else
    unitEscape (0xD800 + (code - 0x10000) / 0x400) ++
      unitEscape (0xDC00 + (code - 0x10000) % 0x400)

/-- The character behind the backslash in the short escape of a character, if it has one. -/
def shortEscape? (c : Char) : Option Char :=
  if c = '\x22' ∨ c = '\\' then some c
  else if c = '\n' then some 'n'
  else if c = '\r' then some 'r'
  else if c = '\t' then some 't'
  else if c = '\x0c' then some 'f'
  else if c = '\x08' then some 'b'
  else none

/-- One character inside the quotes. -/
def escape (c : Char) : List Char :=
  match shortEscape? c with
  | some letter => ['\\', letter]
  | none => if 0x20 ≤ c.toNat ∧ c.toNat < 0x7F then [c] else codeEscape c.toNat

/-- A character has a short escape, stands for itself or is written by its code units.  Only a
printable one stands for itself, and neither a quote nor a backslash does. -/
theorem escape_cases (c : Char) :
    (∃ letter, shortEscape? c = some letter ∧ escape c = ['\\', letter]) ∨
      ((0x20 ≤ c.toNat ∧ c.toNat < 0x7F) ∧ c ≠ '\x22' ∧ c ≠ '\\' ∧ escape c = [c]) ∨
      escape c = codeEscape c.toNat := by
  unfold escape
  split
  · next letter hshort => exact .inl ⟨letter, hshort, rfl⟩
  · next hlong =>
    split
    · next printable =>
      have hquote : c ≠ '\x22' := by rintro rfl; simp [shortEscape?] at hlong
      have hbackslash : c ≠ '\\' := by rintro rfl; simp [shortEscape?] at hlong
      exact .inr (.inl ⟨printable, hquote, hbackslash, rfl⟩)
    · exact .inr (.inr rfl)

/-- A string in double quotes. -/
def quote (text : String) : String :=
  String.ofList ('\x22' :: (text.toList.flatMap escape ++ ['\x22']))

end Lox.Json
