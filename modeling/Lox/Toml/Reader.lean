import Lox.Toml.Number

/-!
# Reading TOML

A document is a list of statements, each on a line of its own: a key with its value, or the header
of a table or of an array of tables.  Values may go on over several lines inside brackets and
strings.  A carriage return directly in front of a newline does not count anywhere.

Inside an inline table, a value that is a table or an array is complete: later entries of the inline
table cannot add to it.

Main results:

- `Toml.statements_nil`: an empty text has no statements.
- `Toml.joinLineEnds_of_not_mem`: a text without carriage returns is read as it is.
-/

namespace Lox.Toml

/-! ## Between the tokens -/

/-- The text without the carriage returns in front of newlines. -/
def joinLineEnds : List Char → List Char
  | '\r' :: '\n' :: rest => '\n' :: joinLineEnds rest
  | c :: rest => c :: joinLineEnds rest
  | [] => []

/-- Leaves out spaces and tabs. -/
def skipBlank (text : List Char) : List Char :=
  text.dropWhile isBlank

/-- Leaves out a comment, but not the newline behind it. -/
def skipComment? (text : List Char) : Option (List Char) :=
  if text.head? = some '#' then
    if (text.takeWhile (· != '\n')).any isControl then none
    else some (text.dropWhile (· != '\n'))
  else some text

/-- Leaves out white space, newlines and comments. -/
def skipLines? (inComment : Bool) : List Char → Option (List Char)
  | [] => some []
  | c :: rest =>
      if c = '\n' then skipLines? false rest
      else if inComment then if isControl c then none else skipLines? true rest
      else if isBlank c then skipLines? false rest
      else if c = '#' then skipLines? true rest
      else some (c :: rest)

/-- A text without carriage returns is read as it is. -/
theorem joinLineEnds_of_not_mem {text : List Char} (h : '\r' ∉ text) :
    joinLineEnds text = text := by
  fun_induction joinLineEnds text with
  | case1 => simp at h
  | case2 c rest _ ih =>
      rw [ih fun hmem => h (List.mem_cons_of_mem _ hmem)]
  | case3 => rfl

/-! ## Keys -/

/-- A character of a name that needs no quotes. -/
def isBareKeyChar (c : Char) : Bool :=
  c.isAlphanum || c == '-' || c == '_'

/-- Reads one name of a key. -/
def name? (text : List Char) : Option (String × List Char) :=
  let bare := text.takeWhile isBareKeyChar
  if bare.isEmpty then (lineString? text).map fun found => (String.ofList found.1, found.2)
  else some (String.ofList bare, text.dropWhile isBareKeyChar)

/-- Reads names with points between them, and the blanks behind the last. -/
def key? (text : List Char) : Option (Key × List Char) :=
  match name? text with
  | none => none
  | some (name, rest) =>
      match skipBlank rest with
      | '.' :: onward =>
          let next := skipBlank onward
          if next.length < text.length then
            match key? next with
            | some (names, behind) => some (name :: names, behind)
            | none => none
          else none
      | behind => some ([name], behind)
termination_by text.length

/-! ## Values -/

/-- Makes a table of the entries of an inline table.  Entries that hold tables or arrays are
complete. -/
def tableOfEntries? : (complete : List Key) → Table → List (Key × Value) → Option Table
  | _, table, [] => some table
  | complete, table, (key, value) :: rest =>
      if complete.any (·.isPrefixOf key) then none
      else match table.update? false (·.insert? (key.getLastD "") value) key.dropLast with
        | none => none
        | some grown =>
            tableOfEntries? (if value.isContainer then key :: complete else complete) grown rest

/-- Reads a value that holds no other values. -/
def simpleValue? (text : List Char) : Option (Value × List Char) :=
  match text with
  | '\x22' :: _ => (string? text).map fun found => (.string (String.ofList found.1), found.2)
  | '\x27' :: _ => (string? text).map fun found => (.string (String.ofList found.1), found.2)
  | 't' :: 'r' :: 'u' :: 'e' :: rest => some (.boolean true, rest)
  | 'f' :: 'a' :: 'l' :: 's' :: 'e' :: rest => some (.boolean false, rest)
  | _ =>
      match date? text with
      | some (date, rest) =>
          if !date.isValid then none
          else
            let clock := match rest with
              | c :: behind => if c = 'T' ∨ c = 't' ∨ c = ' ' then time? behind else none
              | [] => none
            match clock with
            | some (time, behind) =>
                let (shift, behind) := offset behind
                some (.dateTime date time shift, behind)
            | none => some (.date date, rest)
      | none =>
          match time? text with
          | some (time, rest) => some (.time time, rest)
          | none => number? text

mutual

/-- Reads a value.  The fuel bounds how often values, items and entries are begun one behind or
inside the other. -/
def valueWithFuel? : (fuel : Nat) → List Char → Option (Value × List Char)
  | 0, _ => none
  | fuel + 1, text =>
      match text with
      | '[' :: rest =>
          match skipLines? false rest with
          | some (']' :: behind) => some (.array [], behind)
          | some start =>
              (itemsWithFuel? fuel start).map fun found => (.array found.1, found.2)
          | none => none
      | '\x7b' :: rest =>
          match skipBlank rest with
          | '\x7d' :: behind => some (.table [], behind)
          | start =>
              match entriesWithFuel? fuel start with
              | some (entries, behind) =>
                  (tableOfEntries? [] [] entries).map fun table => (.table table, behind)
              | none => none
      | text => simpleValue? text

/-- Reads the items of an array up to its closing bracket.  A comma may stand behind the last. -/
def itemsWithFuel? : (fuel : Nat) → List Char → Option (List Value × List Char)
  | 0, _ => none
  | fuel + 1, text =>
      match valueWithFuel? fuel text with
      | none => none
      | some (value, rest) =>
          match skipLines? false rest with
          | some (']' :: behind) => some ([value], behind)
          | some (',' :: onward) =>
              match skipLines? false onward with
              | some (']' :: behind) => some ([value], behind)
              | some next =>
                  (itemsWithFuel? fuel next).map fun found => (value :: found.1, found.2)
              | none => none
          | _ => none

/-- Reads the entries of an inline table up to its closing brace.  No comma may stand behind the
last. -/
def entriesWithFuel? : (fuel : Nat) → List Char → Option (List (Key × Value) × List Char)
  | 0, _ => none
  | fuel + 1, text =>
      match key? text with
      | some (key, '=' :: rest) =>
          match valueWithFuel? fuel (skipBlank rest) with
          | none => none
          | some (value, rest) =>
              match skipBlank rest with
              | '\x7d' :: behind => some ([(key, value)], behind)
              | ',' :: onward =>
                  (entriesWithFuel? fuel (skipBlank onward)).map fun found =>
                    ((key, value) :: found.1, found.2)
              | _ => none
      | _ => none

end

/-- Reads a value.  Of any two values begun one inside the other or one behind the other, the second
has at least one character less in front of it, and at most two steps are made for each. -/
def value? (text : List Char) : Option (Value × List Char) :=
  valueWithFuel? (2 * text.length + 2) text

/-! ## Statements -/

/-- A statement of a document. -/
inductive Statement where
  | assign (key : Key) (value : Value)
  | openTable (key : Key)
  | openArray (key : Key)

/-- Reads a statement. -/
def statement? : List Char → Option (Statement × List Char)
  | '[' :: '[' :: rest =>
      match key? (skipBlank rest) with
      | some (key, ']' :: ']' :: behind) => some (.openArray key, behind)
      | _ => none
  | '[' :: rest =>
      match key? (skipBlank rest) with
      | some (key, ']' :: behind) => some (.openTable key, behind)
      | _ => none
  | text =>
      match key? text with
      | some (key, '=' :: rest) =>
          (value? (skipBlank rest)).map fun found => (.assign key found.1, found.2)
      | _ => none

/-- What ends a line: blanks, a comment, and a newline or the end of the text. -/
def endLine? (text : List Char) : Option (List Char) :=
  match skipComment? (skipBlank text) with
  | some ('\n' :: rest) => some rest
  | some [] => some []
  | _ => none

/-- Reads a line, which may hold no statement. -/
def line? (text : List Char) : Option (Option Statement × List Char) :=
  let start := skipBlank text
  if start.isEmpty ∨ start.head? = some '\n' ∨ start.head? = some '#' then
    (endLine? start).map fun rest => (none, rest)
  else match statement? start with
    | some (statement, behind) => (endLine? behind).map fun rest => (some statement, rest)
    | none => none

/-- Reads all lines. -/
def statements? (text : List Char) : Option (List Statement) :=
  match line? text with
  | none => none
  | some (found, rest) =>
      if rest.length < text.length then (statements? rest).map (found.toList ++ ·)
      else some found.toList
termination_by text.length

/-- An empty text has no statements. -/
theorem statements_nil : statements? [] = some [] := by
  rw [statements?]
  rfl

end Lox.Toml
