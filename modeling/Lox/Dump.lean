import Lox.Binary64.Shortest
import Lox.Json
import Lox.Text.Quoted
import Lox.Token

/-!
# Token dumps

A dump lists tokens, each with a newline behind it.  The text format writes the type, the lexeme and
the value as they are.  The structured format writes one object per token, in which every lexeme and
every value can be told apart.

Main results:

- `DumpFormat.parse?_name`: each format is read back from its name.
-/

namespace Lox

/-- How a dump writes tokens. -/
inductive DumpFormat where
  | text
  | json
  deriving DecidableEq

namespace DumpFormat

/-- Every format, in the order in which they are offered. -/
def all : List DumpFormat :=
  [text, json]

/-- The name of a format. -/
def name : DumpFormat → String
  | text => "text"
  | json => "json"

/-- The format with the given name. -/
def parse? (name : String) : Option DumpFormat :=
  all.find? (·.name == name)

/-- The format with the given name; every unknown name stands for text. -/
def ofName (name : String) : DumpFormat :=
  (parse? name).getD text

/-- Each format is read back from its name. -/
theorem parse?_name (format : DumpFormat) : parse? format.name = some format := by
  cases format <;> decide

end DumpFormat

/-! ## Tokens in text -/

/-- The value of a token in text. -/
def Literal.format : Literal → String
  | .text value => value
  | .number value => value.text Binary64.plainWords

/-- A token in text: type, lexeme and value. -/
def Token.format (t : Token) : String :=
  t.type.name ++ " " ++ t.lexeme ++ " " ++ (t.literal.map Literal.format).getD "null"

/-! ## Tokens as objects -/

/-- The value of a token in structured output. -/
def Literal.toJson : Literal → String
  | .text value => Json.quote value
  | .number value => value.text Binary64.structuredWords

/-- A token as an object. -/
def Token.toJson (t : Token) : String :=
  "\x7b\"type\": " ++ Json.quote t.type.name ++
    ", \"lexeme\": " ++ Json.quote t.lexeme ++
    ", \"literal\": " ++ (t.literal.map Literal.toJson).getD "null" ++
    ", \"line\": " ++ toString t.line ++ "\x7d"

/-! ## Dumps -/

/-- A token in a format. -/
def DumpFormat.line : DumpFormat → Token → String
  | text, t => t.format
  | json, t => t.toJson

/-- The dump of some tokens. -/
def dump (format : DumpFormat) (tokens : List Token) : String :=
  String.join (tokens.map fun t => format.line t ++ "\n")

end Lox
