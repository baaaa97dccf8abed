/-!
# Operators of Lox

The fixed spellings of the language: eleven punctuators and operators of one character only, and
four operators that also have a form ending in an equals sign.  Scanning needs two questions
answered: which operator one character spells, and which operator an equals sign turns it into.

Main results:

- `Operator.text_of_ofChar?`: the operator found for a character is spelled by that character.
- `Operator.text_of_withEqual?`: widening an operator appends one equals sign to its spelling.
- `Operator.ofChar?_isSome_iff`: the characters that spell an operator are exactly the fifteen of
  `Operator.starts`.
-/

namespace Lox

/-- A punctuator or operator, in the order in which the language lists them. -/
inductive Operator where
  | leftParen
  | rightParen
  | leftBrace
  | rightBrace
  | comma
  | dot
  | minus
  | plus
  | semicolon
  | slash
  | star
  | bang
  | bangEqual
  | equal
  | equalEqual
  | greater
  | greaterEqual
  | less
  | lessEqual
  deriving DecidableEq

namespace Operator

/-- Every operator, in order. -/
def all : List Operator :=
  [leftParen, rightParen, leftBrace, rightBrace, comma, dot, minus, plus, semicolon, slash, star,
    bang, bangEqual, equal, equalEqual, greater, greaterEqual, less, lessEqual]

/-- The characters that spell an operator. -/
def text : Operator → List Char
  | leftParen => ['(']
  | rightParen => [')']
  | leftBrace => ['{']
  | rightBrace => ['}']
  | comma => [',']
  | dot => ['.']
  | minus => ['-']
  | plus => ['+']
  | semicolon => [';']
  | slash => ['/']
  | star => ['*']
  | bang => ['!']
  | bangEqual => ['!', '=']
  | equal => ['=']
  | equalEqual => ['=', '=']
  | greater => ['>']
  | greaterEqual => ['>', '=']
  | less => ['<']
  | lessEqual => ['<', '=']

/-- The name under which a dump lists the operator. -/
def name : Operator → String
  | leftParen => "LEFT_PAREN"
  | rightParen => "RIGHT_PAREN"
  | leftBrace => "LEFT_BRACE"
  | rightBrace => "RIGHT_BRACE"
  | comma => "COMMA"
  | dot => "DOT"
  | minus => "MINUS"
  | plus => "PLUS"
  | semicolon => "SEMICOLON"
  | slash => "SLASH"
  | star => "STAR"
  | bang => "BANG"
  | bangEqual => "BANG_EQUAL"
  | equal => "EQUAL"
  | equalEqual => "EQUAL_EQUAL"
  | greater => "GREATER"
  | greaterEqual => "GREATER_EQUAL"
  | less => "LESS"
  | lessEqual => "LESS_EQUAL"

/-- The operator that one character spells by itself. -/
def ofChar? (c : Char) : Option Operator :=
  all.find? (·.text == [c])

/-- The operator that an equals sign directly behind makes of this one. -/
def withEqual? : Operator → Option Operator
  | bang => some bangEqual
  | equal => some equalEqual
  | greater => some greaterEqual
  | less => some lessEqual
  | _ => none

/-- The characters an operator may start with. -/
def starts : List Char :=
  ['(', ')', '{', '}', ',', '.', '-', '+', ';', '/', '*', '!', '=', '>', '<']

/-! ## Spellings -/

/-- The list of all operators misses none. -/
theorem mem_all (op : Operator) : op ∈ all := by
  cases op <;> decide

/-- An operator found for a character is spelled by that character. -/
theorem text_of_ofChar? {c : Char} {op : Operator} (h : ofChar? c = some op) : op.text = [c] := by
  simpa using List.find?_some h

/-- Widening appends one equals sign to the spelling. -/
theorem text_of_withEqual? {op wide : Operator} (h : op.withEqual? = some wide) :
    wide.text = op.text ++ ['='] := by
  cases op <;> cases h <;> rfl

/-- A character spells an operator exactly when it is one of the fifteen starts. -/
theorem ofChar?_isSome_iff (c : Char) : (ofChar? c).isSome ↔ c ∈ starts := by
  rw [ofChar?, List.find?_isSome]
  constructor
  · rintro ⟨op, _, h⟩
    cases op <;> simp [text] at h <;> subst h <;> decide
  · intro h
    simp only [starts, List.mem_cons, List.not_mem_nil, or_false] at h
    rcases h with h | h | h | h | h | h | h | h | h | h | h | h | h | h | h <;> subst h <;> decide

end Operator

end Lox
