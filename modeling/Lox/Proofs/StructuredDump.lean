import Lox.Dump
import Lox.Proofs.JsonReader
import Lox.Text.Lines

/-!
# Structured dumps lose nothing

In a structured dump every token has a line of its own.  Whatever its lexeme and its value hold, the
line is printable ASCII, so no line breaks in between; and a reader that knows all double precision
numbers reads the line as an object from which the token can be told.

Main results:

- Theorem `Json.read?_toJson`: the line of a token is read as the object of the token.
- Theorem `Token.toValue_injective`: the object of a token tells the token.
- Theorem `splitLines_dump`: the lines of a dump are those of the tokens.
- Theorem `dump_json_lossless`: a structured dump is a line format that tells all tokens.
-/

namespace Lox

/-! ## Tokens as values -/

/-- What a value of a token denotes. -/
def Literal.toValue : Literal → Json.Value
  | .text value => .string value
  | .number value => .real value

/-- What a token denotes: an object with four members. -/
def Token.toValue (t : Token) : Json.Value :=
  .object [("type", .string t.type.name), ("lexeme", .string t.lexeme),
    ("literal", (t.literal.map Literal.toValue).getD .null), ("line", .integer t.line)]

/-- Values of tokens that denote the same are the same. -/
theorem Literal.toValue_injective {first second : Option Literal}
    (h : (first.map Literal.toValue).getD .null = (second.map Literal.toValue).getD .null) :
    first = second := by
  rcases first with _ | (_ | _) <;> rcases second with _ | (_ | _) <;>
    simp [Literal.toValue] at h ⊢ <;> exact h

/-- The object of a token tells the token. -/
theorem Token.toValue_injective : Function.Injective Token.toValue := by
  rintro ⟨type, lexeme, literal, line⟩ ⟨type', lexeme', literal', line'⟩ h
  simp only [Token.toValue, Json.Value.object.injEq, List.cons.injEq, Prod.mk.injEq, true_and,
    and_true, Json.Value.string.injEq, Json.Value.integer.injEq] at h
  obtain ⟨hname, rfl, hliteral, rfl⟩ := h
  have htype : type = type' := by
    have := TokenType.ofName?_name type
    rw [hname, TokenType.ofName?_name] at this
    exact (Option.some.inj this).symm
  rw [htype, Literal.toValue_injective hliteral]

/-! ## Printable characters -/

/-- A character of printable ASCII. -/
def IsPrintable (c : Char) : Prop :=
  0x20 ≤ c.toNat ∧ c.toNat < 0x7F

instance : DecidablePred IsPrintable := fun _ => inferInstanceAs (Decidable (_ ∧ _))

/-- A property of all characters of a closed text is evaluated. -/
theorem forall_mem_of_all {p : Char → Prop} [DecidablePred p] {text : List Char}
    (h : text.all (fun c => decide (p c)) = true) : ∀ c ∈ text, p c := fun c hc =>
  of_decide_eq_true (List.all_eq_true.1 h c hc)

/-- Hexadecimal digits are printable. -/
theorem isPrintable_of_isHexDigit {c : Char} (h : Numeral.isHexDigit c = true) :
    IsPrintable c := by
  have bounds : 0x30 ≤ c.toNat ∧ c.toNat ≤ 0x66 := by
    simp only [Numeral.isHexDigit, Char.isDigit, Bool.or_eq_true, Bool.and_eq_true,
      decide_eq_true_eq, Char.le_def, UInt32.le_iff_toNat_le, ge_iff_le] at h
    rcases h with (h | h) | h <;> simp at h <;> omega
  exact ⟨by omega, by omega⟩

/-- Digits are printable. -/
theorem isPrintable_of_isDigit {c : Char} (h : c.isDigit = true) : IsPrintable c :=
  isPrintable_of_isHexDigit (by simp [Numeral.isHexDigit, h])

/-- Digits belong to words and numbers. -/
theorem isPlain_of_isDigit {c : Char} (h : c.isDigit = true) : Json.isPlain c = true := by
  have other : ∀ d : Char, d.isDigit = false → c ≠ d := by
    rintro d hd rfl
    rw [h] at hd
    cases hd
  simp [Json.isPlain, Json.isSpace, Json.isMark, other ' ' rfl, other '\t' rfl, other '\n' rfl,
    other '\r' rfl, other '\x7b' rfl, other '\x7d' rfl, other '[' rfl, other ']' rfl,
    other ':' rfl, other ',' rfl, other '\x22' rfl]

/-- An escaped code unit is printable. -/
theorem isPrintable_of_mem_unitEscape {code : Nat} {c : Char} (h : c ∈ Json.unitEscape code) :
    IsPrintable c := by
  simp only [Json.unitEscape, List.mem_cons] at h
  rcases h with rfl | rfl | hdigit
  · decide
  · decide
  · exact isPrintable_of_isHexDigit
      (Numeral.isHexDigit_of_mem_padded 16 (by decide) (by decide) hdigit)

/-- Every character is written by printable ones. -/
theorem isPrintable_of_mem_escape {source c : Char} (h : c ∈ Json.escape source) :
    IsPrintable c := by
  rcases Json.escape_cases source with
    ⟨letter, hletter, hescape⟩ | ⟨printable, -, -, hescape⟩ | hescape
  · have printable : IsPrintable letter :=
      forall_mem_of_all (by decide) letter (Json.mem_of_shortEscape? hletter)
    rw [hescape] at h
    rcases List.mem_pair.1 h with rfl | rfl
    · decide
    · exact printable
  · rw [hescape] at h
    rw [List.mem_singleton.1 h]
    exact printable
  · rw [hescape, Json.codeEscape] at h
    split at h
    · exact isPrintable_of_mem_unitEscape h
    · rcases List.mem_append.1 h with h | h <;> exact isPrintable_of_mem_unitEscape h

/-- Quoted strings are printable. -/
theorem isPrintable_of_mem_quote {text : String} {c : Char} (h : c ∈ (Json.quote text).toList) :
    IsPrintable c := by
  simp only [Json.quote, String.toList_ofList, List.mem_cons, List.mem_append, List.mem_flatMap,
    List.not_mem_nil, or_false] at h
  rcases h with rfl | ⟨source, -, hsource⟩ | rfl
  · decide
  · exact isPrintable_of_mem_escape hsource
  · decide

/-- A numeral is made of digits and four other characters. -/
theorem Binary64.Parts.IsNumeral.mem_text {parts : Binary64.Parts} (h : parts.IsNumeral)
    {c : Char} (hc : c ∈ parts.text) : c.isDigit = true ∨ c ∈ ['.', 'e', '+', '-'] := by
  rcases List.mem_append.1 hc with hc | hc
  · exact .inl (h.whole_isDigit c hc)
  rcases List.mem_append.1 hc with hc | hc
  · split at hc
    · cases hc
    · rcases List.mem_cons.1 hc with rfl | hc
      · exact .inr (by decide)
      · exact .inl (h.fraction_isDigit c hc)
  · rcases h.exponent with hnone | ⟨sign, digits, hsome, hsign, -, hdigits⟩
    · rw [hnone] at hc
      cases hc
    · rw [hsome] at hc
      rcases List.mem_cons.1 hc with rfl | hc
      · exact .inr (by decide)
      rcases List.mem_cons.1 hc with rfl | hc
      · rcases hsign with rfl | rfl <;> exact .inr (by decide)
      · exact .inl (hdigits c hc)

/-- Numbers are written by printable characters that make up one word or number. -/
theorem isPlain_of_mem_text (v : Binary64) :
    ∀ c ∈ (v.text Binary64.structuredWords).toList, Json.isPlain c = true ∧ IsPrintable c := by
  cases v with
  | nan => exact forall_mem_of_all (by decide +kernel)
  | infinite negative =>
      cases negative with
      | true => exact forall_mem_of_all (by decide +kernel)
      | false => exact forall_mem_of_all (by decide +kernel)
  | finite negative rank =>
      obtain ⟨parts, hnumeral, htext, -⟩ := Binary64.exists_parts_magnitudeText rank.isLt
      have others : ∀ c ∈ ['.', 'e', '+', '-'], Json.isPlain c = true ∧ IsPrintable c :=
        forall_mem_of_all (by decide)
      intro c h
      rw [Binary64.text, String.toList_ofList, htext] at h
      rcases List.mem_append.1 h with hsign | hc
      · refine others c ?_
        cases negative with
        | true => simp [List.mem_singleton.1 hsign]
        | false => cases hsign
      · rcases hnumeral.mem_text hc with hdigit | hother
        · exact ⟨isPlain_of_isDigit hdigit, isPrintable_of_isDigit hdigit⟩
        · exact others c hother

/-- Integers are written by printable characters that make up one word or number. -/
theorem isPlain_of_mem_toString {n : Int} {c : Char} (h : c ∈ (toString n).toList) :
    Json.isPlain c = true ∧ IsPrintable c := by
  rcases Json.eq_minus_or_isDigit_of_mem_toString h with rfl | hdigit
  · decide
  · exact ⟨isPlain_of_isDigit hdigit, isPrintable_of_isDigit hdigit⟩

/-! ## The line of a token -/

/-- The lexeme that a value is written as. -/
def Literal.lexeme : Option Literal → Json.Lexeme
  | none => .plain .null
  | some (.text value) => .string value
  | some (.number value) => .plain (.real value)

/-- The text of a value, if there is one. -/
def Literal.written (literal : Option Literal) : List Char :=
  ((literal.map Literal.toJson).getD "null").toList

/-- A written value is read as a lexeme. -/
theorem Json.lexemes?_written (literal : Option Literal) {rest : List Char}
    (hrest : ∀ c ∈ rest.head?, Json.isPlain c = false) :
    Json.lexemes? Json.extendedWords (Literal.written literal ++ rest) =
      (Json.lexemes? Json.extendedWords rest).map (Literal.lexeme literal :: ·) := by
  rcases literal with _ | (value | value)
  · exact Json.lexemes?_plain Json.extendedWords (by decide)
      (forall_mem_of_all (by decide +kernel)) hrest rfl
  · exact Json.lexemes?_quote Json.extendedWords value rest
  · have read := Json.plain?_text value
    refine Json.lexemes?_plain Json.extendedWords ?_
      (fun c hc => (isPlain_of_mem_text value c hc).1) hrest read
    intro (hnil : (value.text Binary64.structuredWords).toList = [])
    rw [hnil] at read
    cases read

/-- A member of an object as it is written: a name, a colon and a value. -/
def Json.member (name : String) (value : List Char) : List Char :=
  (Json.quote name).toList ++ ':' :: ' ' :: value

/-- The line of a token is an object with four members. -/
theorem Token.toList_toJson (t : Token) :
    t.toJson.toList =
      '\x7b' :: (Json.member "type" (Json.quote t.type.name).toList ++ ',' :: ' ' ::
        (Json.member "lexeme" (Json.quote t.lexeme).toList ++ ',' :: ' ' ::
          (Json.member "literal" (Literal.written t.literal) ++ ',' :: ' ' ::
            (Json.member "line" (toString t.line).toList ++ ['\x7d'])))) := by
  have first : "\x7b\"type\": ".toList =
      '\x7b' :: ((Json.quote "type").toList ++ [':', ' ']) := by decide +kernel
  have second : ", \"lexeme\": ".toList =
      ',' :: ' ' :: ((Json.quote "lexeme").toList ++ [':', ' ']) := by decide +kernel
  have third : ", \"literal\": ".toList =
      ',' :: ' ' :: ((Json.quote "literal").toList ++ [':', ' ']) := by decide +kernel
  have fourth : ", \"line\": ".toList =
      ',' :: ' ' :: ((Json.quote "line").toList ++ [':', ' ']) := by decide +kernel
  have last : "\x7d".toList = ['\x7d'] := by decide +kernel
  unfold Token.toJson Json.member Literal.written
  repeat rw [String.toList_append]
  rw [first, second, third, fourth, last]
  -- closed strings would be computed while the parts are put in order
  generalize (Json.quote "type").toList = type
  generalize (Json.quote "lexeme").toList = lexeme
  generalize (Json.quote "literal").toList = literal
  generalize (Json.quote "line").toList = line
  simp only [List.append_assoc, List.cons_append, List.nil_append]

/-- A member of an object is cut into its name, a colon and the lexeme of its value. -/
theorem Json.lexemes?_member (words : List (String × Json.Value)) (name : String)
    {value rest : List Char} {lexeme : Json.Lexeme}
    (h : Json.lexemes? words (value ++ rest) = (Json.lexemes? words rest).map (lexeme :: ·)) :
    Json.lexemes? words (Json.member name value ++ rest) =
      (Json.lexemes? words rest).map ([.string name, .mark ':', lexeme] ++ ·) := by
  rw [Json.member, List.append_assoc, List.cons_append, List.cons_append, Json.lexemes?_quote,
    Json.lexemes?_mark _ rfl rfl, Json.lexemes?_space _ rfl, h, Option.map_map, Option.map_map]
  rfl

/-- An integer in front of a mark is read as a lexeme. -/
theorem Json.lexemes?_toString (n : Int) {rest : List Char}
    (hrest : ∀ c ∈ rest.head?, Json.isPlain c = false) :
    Json.lexemes? Json.extendedWords ((toString n).toList ++ rest) =
      (Json.lexemes? Json.extendedWords rest).map (.plain (.integer n) :: ·) := by
  obtain ⟨c, more, hcons⟩ := List.exists_cons_of_ne_nil
    (Nat.toDigits_ne_nil (n := n.natAbs) (b := 10))
  have digit : c ∈ Nat.toDigits 10 n.natAbs := hcons ▸ List.mem_cons_self
  have mem : c ∈ (toString n).toList := by
    rw [Json.toList_toString]
    exact List.mem_append_right _ digit
  refine Json.lexemes?_plain _ (List.ne_nil_of_mem mem)
    (fun c hc => (isPlain_of_mem_toString hc).1) hrest ?_
  rw [Json.plain?_of_digit mem (Nat.isDigit_of_mem_toDigits (by decide) (by decide) digit),
    Json.number?_integer]

/-- The line of a token is cut into lexemes. -/
theorem Json.lexemes?_toJson (t : Token) :
    Json.lexemes? Json.extendedWords t.toJson.toList =
      some [.mark '\x7b', .string "type", .mark ':', .string t.type.name, .mark ',',
        .string "lexeme", .mark ':', .string t.lexeme, .mark ',',
        .string "literal", .mark ':', Literal.lexeme t.literal, .mark ',',
        .string "line", .mark ':', .plain (.integer t.line), .mark '\x7d'] := by
  have comma : ∀ rest, Json.lexemes? Json.extendedWords (',' :: ' ' :: rest) =
      (Json.lexemes? Json.extendedWords rest).map (.mark ',' :: ·) := fun rest => by
    rw [Json.lexemes?_mark _ rfl rfl, Json.lexemes?_space _ rfl]
  have last : Json.lexemes? Json.extendedWords ['\x7d'] = some [.mark '\x7d'] := by
    rw [Json.lexemes?_mark _ rfl rfl, Json.lexemes?]
    rfl
  rw [Token.toList_toJson, Json.lexemes?_mark _ rfl rfl,
    Json.lexemes?_member _ _ (Json.lexemes?_quote _ _ _), comma,
    Json.lexemes?_member _ _ (Json.lexemes?_quote _ _ _), comma,
    Json.lexemes?_member _ _ (Json.lexemes?_written _ (by simp [Json.isPlain, Json.isMark])), comma,
    Json.lexemes?_member _ _ (Json.lexemes?_toString _ (by simp [Json.isPlain, Json.isMark])),
    last]
  rfl

/-- The line of a token is read as the object of the token. -/
theorem Json.read?_toJson (t : Token) :
    Json.read? Json.extendedWords t.toJson.toList = some t.toValue := by
  rw [Json.read?, Json.lexemes?_toJson, Option.bind_some]
  rcases t with ⟨type, lexeme, _ | (_ | _), line⟩ <;> rfl

/-- A member of an object is printable if its value is. -/
theorem Json.isPrintable_of_mem_member (name : String) {value : List Char}
    (h : ∀ c ∈ value, IsPrintable c) : ∀ c ∈ Json.member name value, IsPrintable c := by
  intro c hc
  rcases List.mem_append.1 hc with hname | hc
  · exact isPrintable_of_mem_quote hname
  rcases List.mem_cons.1 hc with rfl | hc
  · decide
  rcases List.mem_cons.1 hc with rfl | hc
  · decide
  · exact h c hc

/-- The line of a token is printable. -/
theorem Token.isPrintable_of_mem_toJson (t : Token) : ∀ c ∈ t.toJson.toList, IsPrintable c := by
  have literal : ∀ c ∈ Literal.written t.literal, IsPrintable c := by
    rcases t.literal with _ | (value | value)
    · exact forall_mem_of_all (by decide +kernel)
    · exact fun c hc => isPrintable_of_mem_quote hc
    · exact fun c hc => (isPlain_of_mem_text value c hc).2
  have type := Json.isPrintable_of_mem_member "type"
    fun c (hc : c ∈ (Json.quote t.type.name).toList) => isPrintable_of_mem_quote hc
  have lexeme := Json.isPrintable_of_mem_member "lexeme"
    fun c (hc : c ∈ (Json.quote t.lexeme).toList) => isPrintable_of_mem_quote hc
  have value := Json.isPrintable_of_mem_member "literal" literal
  have line := Json.isPrintable_of_mem_member "line"
    fun c (hc : c ∈ (toString t.line).toList) => (isPlain_of_mem_toString hc).2
  rw [Token.toList_toJson]
  simp only [List.forall_mem_cons, List.forall_mem_append]
  exact ⟨by decide, type, by decide, by decide, lexeme, by decide, by decide, value, by decide,
    by decide, line, by decide, by simp⟩

/-! ## The lines of a dump -/

/-- A dump starts with the line of the first token. -/
theorem toList_dump_cons (t : Token) (rest : List Token) :
    (dump .json (t :: rest)).toList = t.toJson.toList ++ '\n' :: (dump .json rest).toList := by
  simp [dump, DumpFormat.line]

/-- The lines of a dump are those of the tokens, and no text stands behind the last line end. -/
theorem splitLines_dump (tokens : List Token) :
    splitLines (dump .json tokens).toList = tokens.map (fun t => t.toJson.toList) ++ [[]] := by
  induction tokens with
  | nil => rfl
  | cons t rest ih =>
      have unbroken : '\n' ∉ t.toJson.toList := fun hnewline =>
        absurd (t.isPrintable_of_mem_toJson _ hnewline) (by decide)
      rw [toList_dump_cons, splitLines, pieces_append_cons _ unbroken, ← splitLines, ih]
      rfl

/-- All that is in a dump is the lines of the tokens and their line ends. -/
theorem mem_dump {tokens : List Token} {c : Char} (h : c ∈ (dump .json tokens).toList) :
    (∃ t ∈ tokens, c ∈ t.toJson.toList) ∨ c = '\n' := by
  induction tokens with
  | nil => cases h
  | cons t rest ih =>
      rw [toList_dump_cons] at h
      rcases List.mem_append.1 h with hline | hrest
      · exact .inl ⟨t, List.mem_cons_self, hline⟩
      rcases List.mem_cons.1 hrest with rfl | hrest
      · exact .inr rfl
      · rcases ih hrest with ⟨other, hother, hline⟩ | hnewline
        · exact .inl ⟨other, List.mem_cons_of_mem _ hother, hline⟩
        · exact .inr hnewline

/-- A structured dump is a line format that tells all tokens.  It is ASCII, it has a line end for
each token and no control besides, and the lines in front of the line ends are read as the objects
of the tokens, in order.  So lists of tokens with the same dump are the same. -/
theorem dump_json_lossless (tokens : List Token) :
    (∀ c ∈ (dump .json tokens).toList, c.toNat < 0x80) ∧
      newlines (dump .json tokens).toList = tokens.length ∧
      (∃ lines, splitLines (dump .json tokens).toList = lines ++ [[]] ∧
        (∀ line ∈ lines, ∀ c ∈ line, 0x20 ≤ c.toNat) ∧
        lines.map (Json.read? Json.extendedWords) = tokens.map fun t => some t.toValue) ∧
      ∀ others, dump .json others = dump .json tokens → others = tokens := by
  have read : ∀ tokens : List Token,
      (tokens.map fun t => t.toJson.toList).map (Json.read? Json.extendedWords) =
        tokens.map fun t => some t.toValue := by
    intro tokens
    rw [List.map_map]
    exact List.map_congr_left fun t _ => Json.read?_toJson t
  refine ⟨?_, ?_, ⟨_, splitLines_dump tokens, ?_, read tokens⟩, ?_⟩
  · intro c hc
    rcases mem_dump hc with ⟨t, -, hline⟩ | rfl
    · have := (t.isPrintable_of_mem_toJson c hline).2
      omega
    · decide
  · have count := length_splitLines (dump .json tokens).toList
    rw [splitLines_dump] at count
    simpa using count.symm
  · intro line hline c hc
    rcases List.mem_map.1 hline with ⟨t, -, rfl⟩
    exact (t.isPrintable_of_mem_toJson c hc).1
  · intro others hsame
    have lines := splitLines_dump others
    rw [hsame, splitLines_dump, List.append_cancel_right_eq] at lines
    have values := read others
    rw [← lines, read] at values
    exact (List.map_injective_iff.2 ((Option.some_injective _).comp Token.toValue_injective)
      values).symm

end Lox
