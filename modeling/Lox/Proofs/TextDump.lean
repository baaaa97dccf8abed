import Lox.Proofs.StringBodies
import Lox.Proofs.StructuredDump

/-!
# Text dumps are decodable

A text dump escapes nothing: a string is written as it stands, with whatever spaces, newlines and
texts that look like other items it holds.  Still the dump of a scan tells its tokens, apart from
the lines.  The name of a type ends at a space; the body of a string ends at a quote and is written
a second time as the value, so its length is known; no other lexeme holds a space and no other value
a newline.  So whatever stands behind an item, the reader finds its end.

Main results:

- Theorem `TextDump.item?_format`: an item is read in front of any text.
- Theorem `TextDump.items?_dump`: a dump of legible tokens is read item by item.
- Theorem `legible_of_mem_scan`: the tokens of a scan are legible.
- Theorem `dump_text_scan`: the dump of a scan is read as the contents of its tokens, so scans with
  the same dump have tokens with the same contents.
-/

namespace Lox

namespace TextDump

/-! ## Reading a dump -/

/-- What an item of a dump tells: the type of a token, its lexeme and its value. -/
abbrev Item := TokenType × String × Option Literal

/-- Reads up to the first occurrence of a character and over it. -/
def field? (stop : Char) (text : List Char) : Option (List Char × List Char) :=
  match text.dropWhile (· != stop) with
  | [] => none
  | _ :: rest => some (text.takeWhile (· != stop), rest)

/-- Reads what stands behind the type of a string: its lexeme and, in front of a newline, its body
once more. -/
def stringItem? (text : List Char) : Option (Item × List Char) := do
  let (_, text) ← field? '"' text
  let (body, rest) ← field? '"' text
  some ((.string, String.ofList (quoted body), some (.text (String.ofList body))),
    rest.drop (body.length + 2))

/-- Reads what stands behind the type of any other token: a lexeme and a value. -/
def plainItem? (type : TokenType) (text : List Char) : Option (Item × List Char) := do
  let (lexeme, text) ← field? ' ' text
  let (value, rest) ← field? '\n' text
  let literal := if type = .number then (Binary64.ofText? value).map Literal.number else none
  some ((type, String.ofList lexeme, literal), rest)

/-- Reads one item. -/
def item? (text : List Char) : Option (Item × List Char) := do
  let (name, rest) ← field? ' ' text
  let type ← TokenType.ofName? (String.ofList name)
  if type = .string then stringItem? rest else plainItem? type rest

/-- Reading a field makes the text shorter. -/
theorem length_field?_lt {stop : Char} {text front rest : List Char}
    (h : field? stop text = some (front, rest)) : rest.length < text.length := by
  have shorter := (List.dropWhile_suffix (· != stop) (l := text)).length_le
  unfold field? at h
  split at h
  · cases h
  · next found =>
    cases h
    rw [found] at shorter
    exact shorter

/-- Reading a string makes the text shorter. -/
theorem length_stringItem?_lt {text rest : List Char} {item : Item}
    (h : stringItem? text = some (item, rest)) : rest.length < text.length := by
  simp only [stringItem?, Option.bind_eq_bind, Option.bind_eq_some_iff, Prod.exists,
    Option.some.injEq, Prod.mk.injEq] at h
  obtain ⟨_, _, hopen, body, left, hclose, -, rfl⟩ := h
  have opened := length_field?_lt hopen
  have closed := length_field?_lt hclose
  rw [List.length_drop]
  omega

/-- Reading a lexeme and a value makes the text shorter. -/
theorem length_plainItem?_lt {type : TokenType} {text rest : List Char} {item : Item}
    (h : plainItem? type text = some (item, rest)) : rest.length < text.length := by
  simp only [plainItem?, Option.bind_eq_bind, Option.bind_eq_some_iff, Prod.exists,
    Option.some.injEq, Prod.mk.injEq] at h
  obtain ⟨_, _, hlexeme, _, _, hvalue, -, rfl⟩ := h
  exact (length_field?_lt hvalue).trans (length_field?_lt hlexeme)

/-- Reading an item makes the text shorter. -/
theorem length_item?_lt {text rest : List Char} {item : Item}
    (h : item? text = some (item, rest)) : rest.length < text.length := by
  simp only [item?, Option.bind_eq_bind, Option.bind_eq_some_iff, Prod.exists] at h
  obtain ⟨_, _, hname, type, -, h⟩ := h
  have named := length_field?_lt hname
  split at h
  · exact (length_stringItem?_lt h).trans named
  · exact (length_plainItem?_lt h).trans named

/-- Reads all items of a dump. -/
def items? (text : List Char) : Option (List Item) :=
  if text = [] then some []
  else match h : item? text with
    | none => none
    | some (item, rest) =>
        have := length_item?_lt h
        (items? rest).map (item :: ·)
termination_by text.length

/-- A dump without items is empty. -/
theorem items?_nil : items? [] = some [] := by
  rw [items?, if_pos rfl]

/-- The items of a dump are the first one and those of the rest. -/
theorem items?_of_item? {text rest : List Char} {item : Item}
    (h : item? text = some (item, rest)) :
    items? text = (items? rest).map (item :: ·) := by
  have some_text : text ≠ [] := List.ne_nil_of_length_pos (Nat.zero_lt_of_lt (length_item?_lt h))
  rw [items?, if_neg some_text]
  split
  · next refused => simp [h] at refused
  · next found =>
    rw [h] at found
    cases found
    rfl

/-! ## Reading what is written -/

/-- A field is read in front of any text. -/
theorem field?_append {stop : Char} {front : List Char} (h : stop ∉ front) (rest : List Char) :
    field? stop (front ++ stop :: rest) = some (front, rest) := by
  have inside : ∀ c ∈ front, (c != stop) = true := by
    intro c hc
    simpa using ne_of_mem_of_not_mem hc h
  have ended : ∀ c ∈ (stop :: rest).head?, (c != stop) = false := by simp
  obtain ⟨taken, left⟩ := span_eq inside ended
  rw [field?, left, taken]

/-- A string is read in front of any text. -/
theorem stringItem?_quoted {body : List Char} (h : '"' ∉ body) (rest : List Char) :
    stringItem? (quoted body ++ ' ' :: (body ++ '\n' :: rest)) =
      some ((.string, String.ofList (quoted body), some (.text (String.ofList body))), rest) := by
  have opened : field? '"' ('"' :: (body ++ '"' :: ' ' :: (body ++ '\n' :: rest))) =
      some ([], body ++ '"' :: ' ' :: (body ++ '\n' :: rest)) :=
    field?_append List.not_mem_nil _
  have closed := field?_append h (' ' :: (body ++ '\n' :: rest))
  have behind : (' ' :: (body ++ '\n' :: rest)).drop (body.length + 2) = rest := by
    simp [← List.drop_drop]
  have whole : quoted body ++ ' ' :: (body ++ '\n' :: rest) =
      '"' :: (body ++ '"' :: ' ' :: (body ++ '\n' :: rest)) := by
    simp [quoted]
  rw [whole, stringItem?, opened, Option.bind_eq_bind, Option.bind_some]
  simp only [closed, Option.bind_some, behind]

/-- No name of a type holds a space. -/
theorem space_not_mem_name (type : TokenType) : ' ' ∉ type.name.toList := by
  have names : TokenType.all.all (fun type => !type.name.toList.contains ' ') = true := by
    decide +kernel
  simpa using List.all_eq_true.1 names type (TokenType.mem_all type)

/-- No number is written with a newline. -/
theorem newline_not_mem_text (value : Binary64) :
    '\n' ∉ (value.text Binary64.plainWords).toList := by
  cases value with
  | nan => decide +kernel
  | infinite negative => cases negative <;> decide +kernel
  | finite negative rank =>
      intro hnewline
      exact absurd (isPlain_of_mem_text (.finite negative rank) '\n' hnewline).2 (by decide)

end TextDump

/-! ## Legible tokens -/

/-- A token of which an item tells enough.  A string is a body without a quote, between two quotes
as the lexeme and alone as the value; any other lexeme holds no space; and only strings and numbers
have a value. -/
inductive Token.Legible : Token → Prop
  | string (line : Int) (body : List Char) (h : '"' ∉ body) : Legible (.ofBody line body)
  | number (line : Int) (lexeme : String) (value : Binary64) (h : ' ' ∉ lexeme.toList) :
      Legible ⟨.number, lexeme, some (.number value), line⟩
  | plain (line : Int) (type : TokenType) (lexeme : String) (hstring : type ≠ .string)
      (hnumber : type ≠ .number) (h : ' ' ∉ lexeme.toList) : Legible ⟨type, lexeme, none, line⟩

namespace TextDump

/-- What stands in an item. -/
theorem toList_format (token : Token) :
    token.format.toList =
      token.type.name.toList ++ ' ' :: (token.lexeme.toList ++
        ' ' :: ((token.literal.map Literal.format).getD "null").toList) := by
  simp [Token.format]

/-- The type of a token is read off its item. -/
theorem item?_format_eq (token : Token) (rest : List Char) :
    item? (token.format.toList ++ '\n' :: rest) =
      let text := token.lexeme.toList ++
        ' ' :: (((token.literal.map Literal.format).getD "null").toList ++ '\n' :: rest)
      if token.type = .string then stringItem? text else plainItem? token.type text := by
  rw [toList_format, List.append_assoc, List.cons_append, List.append_assoc, List.cons_append,
    item?, field?_append (space_not_mem_name token.type), Option.bind_eq_bind, Option.bind_some]
  simp only [String.ofList_toList, TokenType.ofName?_name, Option.bind_eq_bind, Option.bind_some]

/-- A lexeme without a space and a value without a newline are read in front of any text. -/
theorem plainItem?_append {lexeme value : List Char} (hlexeme : ' ' ∉ lexeme)
    (hvalue : '\n' ∉ value) (type : TokenType) (rest : List Char) :
    plainItem? type (lexeme ++ ' ' :: (value ++ '\n' :: rest)) =
      some ((type, String.ofList lexeme,
        if type = .number then (Binary64.ofText? value).map Literal.number else none), rest) := by
  rw [plainItem?, field?_append hlexeme, Option.bind_eq_bind, Option.bind_some]
  simp only [field?_append hvalue, Option.bind_some]

/-- The item of a legible token is read in front of any text. -/
theorem item?_format {token : Token} (h : token.Legible) (rest : List Char) :
    item? (token.format.toList ++ '\n' :: rest) = some (token.content, rest) := by
  rw [item?_format_eq]
  cases h with
  | string line body h =>
      have read := stringItem?_quoted h rest
      simpa [Token.ofBody, Literal.format, Token.content] using read
  | number line lexeme value h =>
      have read := plainItem?_append h (newline_not_mem_text value) .number rest
      rw [if_pos rfl, Binary64.ofText?_text (.inl rfl)] at read
      simpa [Literal.format, Token.content] using read
  | plain line type lexeme hstring hnumber h =>
      have null : '\n' ∉ "null".toList := by decide +kernel
      have read := plainItem?_append h null type rest
      rw [if_neg hnumber] at read
      simpa [hstring, Token.content] using read

/-- A dump starts with the item of the first token. -/
theorem toList_dump_text_cons (token : Token) (rest : List Token) :
    (dump .text (token :: rest)).toList =
      token.format.toList ++ '\n' :: (dump .text rest).toList := by
  simp [dump, DumpFormat.line]

/-- A dump of legible tokens is read item by item. -/
theorem items?_dump {tokens : List Token} (h : ∀ token ∈ tokens, token.Legible) :
    items? (dump .text tokens).toList = some (tokens.map Token.content) := by
  induction tokens with
  | nil => exact items?_nil
  | cons token rest ih =>
      rw [List.forall_mem_cons] at h
      rw [toList_dump_text_cons, items?_of_item? (item?_format h.1 _), ih h.2]
      rfl

/-- A dump says nothing about the lines of the tokens. -/
theorem dump_text_congr {first second : List Token}
    (h : first.map Token.content = second.map Token.content) :
    dump .text first = dump .text second := by
  have items (tokens : List Token) : dump .text tokens =
      String.join ((tokens.map Token.content).map fun item =>
        (⟨item.1, item.2.1, item.2.2, 0⟩ : Token).format ++ "\n") := by
    rw [List.map_map]
    rfl
  rw [items, items, h]

end TextDump

/-! ## The dump of a scan -/

/-- A lexeme other than a string holds no space. -/
theorem Segment.space_not_mem_text {part : Segment} (hwf : part.WellFormed)
    (htoken : part.isToken = true) (hstring : ∀ body, part ≠ .string body) : ' ' ∉ part.text := by
  intro hspace
  have no_digit {run : List Char} (hrun : IsDigits run) : ' ' ∉ run := by
    intro hmem
    cases hrun.2 ' ' hmem
  cases part with
  | operator op => cases op <;> simp [text, Operator.text] at hspace
  | string body => exact hstring body rfl
  | number whole fraction =>
      cases fraction with
      | none => exact no_digit hwf.1 hspace
      | some places =>
          rcases List.mem_append.1 hspace with hmem | hmem
          · exact no_digit hwf.1 hmem
          · rcases List.mem_cons.1 hmem with hpoint | hmem
            · cases hpoint
            · exact no_digit (hwf.2 places rfl) hmem
  | word word =>
      rcases hwf with ⟨c, rest, rfl, hstart, hrest⟩
      rcases List.mem_cons.1 hspace with rfl | hmem
      · cases hstart
      · cases hrest ' ' hmem
  | _ => cases htoken

/-- The token of a well-formed segment is legible. -/
theorem Segment.legible_of_token? {part : Segment} (hwf : part.WellFormed) {line : Int}
    {token : Token} (h : part.token? line = some token) : token.Legible := by
  have lexeme (htoken : part.isToken = true) (hstring : ∀ body, part ≠ .string body) :
      ' ' ∉ (String.ofList part.text).toList := by
    rw [String.toList_ofList]
    exact space_not_mem_text hwf htoken hstring
  cases part with
  | string body =>
      cases h
      exact .string line body hwf
  | number whole fraction =>
      cases h
      exact .number line _ _ (lexeme rfl (by simp))
  | operator op =>
      cases h
      exact .plain line _ _ (by simp) (by simp) (lexeme rfl (by simp))
  | word word =>
      cases h
      refine .plain line _ _ ?_ ?_ (lexeme rfl (by simp))
      all_goals
        unfold TokenType.ofWord
        split <;> simp
  | _ => cases h

/-- The tokens of a scan are legible. -/
theorem legible_of_mem_scan {source : String} {token : Token} (h : token ∈ (scan source).tokens) :
    token.Legible := by
  rcases token?_or_eof_of_mem_scan h with ⟨part, hwf, line, hline⟩ | ⟨line, rfl⟩
  · exact Segment.legible_of_token? hwf hline
  · exact .plain line .eof "" (by simp) (by simp) (by simp)

/-- The text dump of a scan is decodable.  It is read as the types, the lexemes and the values of
the tokens, in order.  So two scans have the same dump exactly if their tokens are the same, one by
one, apart from the lines. -/
theorem dump_text_scan (source other : String) :
    TextDump.items? (dump .text (scan source).tokens).toList =
        some ((scan source).tokens.map Token.content) ∧
      (dump .text (scan source).tokens = dump .text (scan other).tokens ↔
        (scan source).tokens.map Token.content = (scan other).tokens.map Token.content) := by
  have read (source : String) : TextDump.items? (dump .text (scan source).tokens).toList =
      some ((scan source).tokens.map Token.content) :=
    TextDump.items?_dump fun _ htoken => legible_of_mem_scan htoken
  refine ⟨read source, ?_, TextDump.dump_text_congr⟩
  intro hsame
  have contents := read source
  rw [hsame, read other, Option.some.injEq] at contents
  exact contents.symm

end Lox
