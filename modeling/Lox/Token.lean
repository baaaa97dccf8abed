import Lox.Binary64
import Lox.Keyword
import Lox.Operator

/-!
# Tokens

A token is a lexeme with its type, the value it denotes if it denotes one, and the line it starts
on.  Types form one numbered list: the operators, the three kinds of lexeme with a spelling of their
own, the reserved words, and the end of the text.

Main results:

- `TokenType.mem_all`: the list of all types misses none.
- `TokenType.ofName?_name`: a type is found by its name, so names tell types apart.
-/

namespace Lox

/-- The type of a token. -/
inductive TokenType where
  | operator (op : Operator)
  | identifier
  | string
  | number
  | keyword (keyword : Keyword)
  | eof
  deriving DecidableEq

namespace TokenType

/-- Every type, in order. -/
def all : List TokenType :=
  Operator.all.map operator ++ [identifier, string, number] ++ Keyword.all.map keyword ++ [eof]

/-- The name under which a dump lists the type. -/
def name : TokenType → String
  | operator op => op.name
  | identifier => "IDENTIFIER"
  | string => "STRING"
  | number => "NUMBER"
  | keyword word => word.name
  | eof => "EOF"

/-- The place of the type in the list of all types, counted from one. -/
def index (type : TokenType) : Nat :=
  all.idxOf type + 1

/-- The type with the given name. -/
def ofName? (name : String) : Option TokenType :=
  all.find? (·.name == name)

/-- The type of a word: its keyword if it is reserved. -/
def ofWord (word : List Char) : TokenType :=
  match Keyword.ofText? word with
  | some reserved => keyword reserved
  | none => identifier

/-- The list of all types misses none. -/
theorem mem_all (type : TokenType) : type ∈ all := by
  cases type with
  | operator op => simp [all, Operator.mem_all]
  | keyword word => simp [all, Keyword.mem_all]
  | _ => simp [all]

/-- A type is found by its name. -/
theorem ofName?_name (type : TokenType) : ofName? type.name = some type := by
  cases type with
  | operator op => cases op <;> decide
  | keyword word => cases word <;> decide
  | _ => decide

end TokenType

/-- The value that a lexeme denotes. -/
inductive Literal where
  | text (value : String)
  | number (value : Binary64)
  deriving DecidableEq

/-- A lexeme of a text with its type, its value and the line it starts on. -/
structure Token where
  type : TokenType
  lexeme : String
  literal : Option Literal
  line : Int
  deriving DecidableEq

/-- The token that closes every scan. -/
def Token.eof (line : Int) : Token :=
  ⟨.eof, "", none, line⟩

end Lox
