import Lox.Numeral
import Lox.Text.Printable

/-!
# Quoted text

A text is quoted for a message so that it can be read off the message: in single quotes, or in
double quotes where that saves escaping.  The quote in use, the backslash and everything that is not
printable are escaped.
-/

namespace Lox.Quoted

/-- The quote to use: the double quote for a text that has single quotes and no double quotes. -/
def mark (text : List Char) : Char :=
  if text.contains '\x27' && !text.contains '\x22' then '\x22' else '\x27'

/-- The code point of a character in hexadecimal, in the shortest of three escapes. -/
def escapeCode (c : Char) : List Char :=
  if c.toNat < 0x100 then '\\' :: 'x' :: Numeral.padded 16 2 c.toNat
  else if c.toNat < 0x10000 then '\\' :: 'u' :: Numeral.padded 16 4 c.toNat
  else '\\' :: 'U' :: Numeral.padded 16 8 c.toNat

/-- One character inside quotes. -/
def escape (quote c : Char) : List Char :=
  if c = quote ∨ c = '\\' then ['\\', c]
  else if c = '\n' then ['\\', 'n']
  else if c = '\r' then ['\\', 'r']
  else if c = '\t' then ['\\', 't']
  else if isPrintable c then [c]
  else escapeCode c

/-- A text in quotes. -/
def quote (text : String) : String :=
  let chars := text.toList
  let delimiter := mark chars
  String.ofList (delimiter :: (chars.flatMap (escape delimiter) ++ [delimiter]))

end Lox.Quoted
