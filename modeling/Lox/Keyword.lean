/-!
# Reserved words and character classes of Lox

Words are made of ASCII letters, ASCII digits and underscores and do not start with a digit.
Sixteen of them are reserved; every other word names something.

Main results:

- `Keyword.ofText?_eq_some_iff`: a word is reserved exactly when it is spelled like a keyword, so
  the reserved words are told apart by their spelling alone.
-/

namespace Lox

/-! ## Character classes -/

/-- A word starts with an ASCII letter or an underscore. -/
def isWordStart (c : Char) : Bool :=
  c.isAlpha || c == '_'

/-- A word goes on with ASCII letters, ASCII digits and underscores. -/
def isWordPart (c : Char) : Bool :=
  isWordStart c || c.isDigit

/-! ## Reserved words -/

/-- A reserved word, in the order in which the language lists them. -/
inductive Keyword where
  | andKw
  | classKw
  | elseKw
  | falseKw
  | funKw
  | forKw
  | ifKw
  | nilKw
  | orKw
  | printKw
  | returnKw
  | superKw
  | thisKw
  | trueKw
  | varKw
  | whileKw
  deriving DecidableEq

namespace Keyword

/-- Every reserved word, in order. -/
def all : List Keyword :=
  [andKw, classKw, elseKw, falseKw, funKw, forKw, ifKw, nilKw, orKw, printKw, returnKw, superKw,
    thisKw, trueKw, varKw, whileKw]

/-- The characters that spell a reserved word. -/
def text : Keyword → List Char
  | andKw => ['a', 'n', 'd']
  | classKw => ['c', 'l', 'a', 's', 's']
  | elseKw => ['e', 'l', 's', 'e']
  | falseKw => ['f', 'a', 'l', 's', 'e']
  | funKw => ['f', 'u', 'n']
  | forKw => ['f', 'o', 'r']
  | ifKw => ['i', 'f']
  | nilKw => ['n', 'i', 'l']
  | orKw => ['o', 'r']
  | printKw => ['p', 'r', 'i', 'n', 't']
  | returnKw => ['r', 'e', 't', 'u', 'r', 'n']
  | superKw => ['s', 'u', 'p', 'e', 'r']
  | thisKw => ['t', 'h', 'i', 's']
  | trueKw => ['t', 'r', 'u', 'e']
  | varKw => ['v', 'a', 'r']
  | whileKw => ['w', 'h', 'i', 'l', 'e']

/-- The name under which a dump lists the reserved word. -/
def name : Keyword → String
  | andKw => "AND"
  | classKw => "CLASS"
  | elseKw => "ELSE"
  | falseKw => "FALSE"
  | funKw => "FUN"
  | forKw => "FOR"
  | ifKw => "IF"
  | nilKw => "NIL"
  | orKw => "OR"
  | printKw => "PRINT"
  | returnKw => "RETURN"
  | superKw => "SUPER"
  | thisKw => "THIS"
  | trueKw => "TRUE"
  | varKw => "VAR"
  | whileKw => "WHILE"

/-- The reserved word with exactly the given spelling, if there is one. -/
def ofText? (word : List Char) : Option Keyword :=
  all.find? (·.text == word)

/-- The list of all reserved words misses none. -/
theorem mem_all (keyword : Keyword) : keyword ∈ all := by
  cases keyword <;> decide

/-- Every reserved word is found by its spelling. -/
theorem ofText?_text (keyword : Keyword) : ofText? keyword.text = some keyword := by
  cases keyword <;> decide

/-- A word is reserved exactly when it is spelled like a keyword. -/
theorem ofText?_eq_some_iff {word : List Char} {keyword : Keyword} :
    ofText? word = some keyword ↔ word = keyword.text := by
  constructor
  · intro h
    have spelled := List.find?_some h
    exact (eq_of_beq spelled).symm
  · rintro rfl
    exact ofText?_text keyword

end Keyword

end Lox
