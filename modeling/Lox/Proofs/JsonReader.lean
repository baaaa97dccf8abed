import Lox.Json
import Lox.Proofs.ShortestText
import Mathlib.Data.List.TakeWhile

/-!
# Reading structured output

A reader of JSON texts, written after the grammar and not after the writer.  A text is cut into
lexemes: marks, strings, and runs of other characters that are a word or a number.  The lexemes are
taken one by one on a stack of the arrays and objects that are still open.

Strings are read as UTF-16 code units and put together afterwards, so an escaped surrogate pair is
one character and half a pair is refused.  A number with a fraction or an exponent is the nearest
double precision number, every other one is an integer.  Which words there are is a parameter, since
some readers know the values that are no JSON numbers.

Main results:

- Theorem `Json.charsOfUnits?_flatMap`: code units are put together to the characters they are of.
- Theorem `Json.lexemes?_quote`: a quoted string is read as a single lexeme.
- Theorem `Json.number?_integer`, `Json.number?_numeral`: a written number is read.
-/

namespace Lox.Json

/-- What a text denotes.  Members of an object keep their order. -/
inductive Value where
  | null
  | boolean (value : Bool)
  | integer (value : Int)
  | real (value : Binary64)
  | string (value : String)
  | array (elements : List Value)
  | object (members : List (String × Value))

/-! ## Strings -/

/-- The UTF-16 code units of a code point. -/
def codeUnits (code : Nat) : List Nat :=
  if code < 0x10000 then [code]
  else [0xD800 + (code - 0x10000) / 0x400, 0xDC00 + (code - 0x10000) % 0x400]

/-- The characters of UTF-16 code units.  Half a surrogate pair belongs to no character. -/
def charsOfUnits? : List Nat → Option (List Char)
  | [] => some []
  | unit :: rest =>
      if 0xD800 ≤ unit ∧ unit < 0xDC00 then
        match rest with
        | [] => none
        | low :: rest =>
            if 0xDC00 ≤ low ∧ low < 0xE000 then
              (charsOfUnits? rest).map
                (Char.ofNat (0x10000 + (unit - 0xD800) * 0x400 + (low - 0xDC00)) :: ·)
            else none
      else if 0xDC00 ≤ unit ∧ unit < 0xE000 then none
      else (charsOfUnits? rest).map (Char.ofNat unit :: ·)

/-- The code unit that a letter behind a backslash stands for. -/
def unescape? (letter : Char) : Option Nat :=
  [('\x22', 0x22), ('\\', 0x5C), ('/', 0x2F), ('b', 0x08), ('f', 0x0C), ('n', 0x0A), ('r', 0x0D),
    ('t', 0x09)].lookup letter

/-- Reads what stands behind a backslash: a letter, or four digits behind the letter for any code
unit. -/
def escaped? : List Char → Option (Nat × List Char)
  | [] => none
  | letter :: rest =>
      if letter = 'u' then
        if (rest.take 4).length = 4 ∧ (rest.take 4).all Numeral.isHexDigit then
          some (Numeral.value 16 (rest.take 4), rest.drop 4)
        else none
      else (unescape? letter).map fun unit => (unit, rest)

/-- No text is left over but what stands behind. -/
theorem length_escaped? {text behind : List Char} {unit : Nat}
    (h : escaped? text = some (unit, behind)) : behind.length ≤ text.length := by
  unfold escaped? at h
  split at h
  · cases h
  · split at h
    · split at h
      · cases h
        simp only [List.length_drop, List.length_cons]
        omega
      · cases h
    · simp only [Option.map_eq_some_iff, Prod.mk.injEq] at h
      obtain ⟨_, -, -, rfl⟩ := h
      exact Nat.le_succ _

/-- Reads the code units of a string up to the closing quote.  Controls have to be escaped. -/
def units? : List Char → Option (List Nat × List Char)
  | [] => none
  | c :: rest =>
      if c = '\x22' then some ([], rest)
      else if c = '\\' then
        match _hescaped : escaped? rest with
        | none => none
        | some (unit, behind) => (units? behind).map fun (units, left) => (unit :: units, left)
      else if c.toNat < 0x20 then none
      else (units? rest).map fun (units, left) => (codeUnits c.toNat ++ units, left)
termination_by text => text.length
decreasing_by
  · have := length_escaped? _hescaped
    simp only [List.length_cons]
    omega
  · exact Nat.lt_succ_self _

/-- Reads a string behind its opening quote. -/
def string? (text : List Char) : Option (String × List Char) :=
  match units? text with
  | none => none
  | some (units, behind) => (charsOfUnits? units).map fun chars => (String.ofList chars, behind)

/-- No text is left over but what stands behind the string. -/
theorem length_units? {text behind : List Char} {units : List Nat}
    (h : units? text = some (units, behind)) : behind.length ≤ text.length := by
  fun_induction units? text generalizing units behind with
  | case1 => cases h
  | case2 rest =>
      cases h
      exact Nat.le_succ _
  | case3 => cases h
  | case4 rest unit behind' hescaped _ ih =>
      simp only [Option.map_eq_some_iff, Prod.exists, Prod.mk.injEq] at h
      obtain ⟨later, _, hlater, -, rfl⟩ := h
      have := ih hlater
      have := length_escaped? hescaped
      simp only [List.length_cons]
      omega
  | case5 => cases h
  | case6 c rest _ _ _ ih =>
      simp only [Option.map_eq_some_iff, Prod.exists, Prod.mk.injEq] at h
      obtain ⟨later, _, hlater, -, rfl⟩ := h
      have := ih hlater
      simp only [List.length_cons]
      omega

/-- No text is left over but what stands behind the string. -/
theorem length_string? {text behind : List Char} {s : String}
    (h : string? text = some (s, behind)) : behind.length ≤ text.length := by
  unfold string? at h
  split at h
  · cases h
  · next units left hunits =>
    simp only [Option.map_eq_some_iff, Prod.mk.injEq] at h
    obtain ⟨_, -, -, rfl⟩ := h
    exact length_units? hunits

/-! ## Numbers and words -/

/-- Digits in front of a point: at least one, and no needless zero in front. -/
def isWhole (digits : List Char) : Bool :=
  !digits.isEmpty && (digits.head? != some '0' || digits == ['0'])

/-- An exponent or nothing. -/
def isExponent : List Char → Bool
  | [] => true
  | c :: rest =>
      let digits := (Binary64.splitSign rest).2
      (c == 'e' || c == 'E') && !digits.isEmpty && digits.all Char.isDigit

/-- What stands behind the digits in front: a point with digits or nothing, an exponent or
nothing. -/
def isFractional : List Char → Bool
  | '.' :: rest =>
      !(rest.takeWhile Char.isDigit).isEmpty && isExponent (rest.dropWhile Char.isDigit)
  | text => isExponent text

/-- Reads a number that takes up the whole text. -/
def number? (text : List Char) : Option Value :=
  let negative := text.head? = some '-'
  let body := if negative then text.drop 1 else text
  let whole := body.takeWhile Char.isDigit
  let behind := body.dropWhile Char.isDigit
  if !isWhole whole || !isFractional behind then none
  else if behind.isEmpty then
    some (.integer (if negative then -(Numeral.value 10 whole : Int) else Numeral.value 10 whole))
  else (Binary64.ofText? text).map .real

/-- The words of the grammar. -/
def standardWords : List (String × Value) :=
  [("null", .null), ("true", .boolean true), ("false", .boolean false)]

/-- The words of readers that know all double precision numbers. -/
def extendedWords : List (String × Value) :=
  standardWords ++
    [("NaN", .real .nan), ("Infinity", .real (.infinite false)),
      ("-Infinity", .real (.infinite true))]

/-! ## Lexemes -/

/-- The least parts of a text that mean something: a mark, a string, or a word or number. -/
inductive Lexeme where
  | mark (c : Char)
  | string (value : String)
  | plain (value : Value)

/-- Space between lexemes. -/
def isSpace (c : Char) : Bool :=
  c == ' ' || c == '\t' || c == '\n' || c == '\r'

/-- The marks that make up arrays and objects. -/
def isMark (c : Char) : Bool :=
  c == '\x7b' || c == '\x7d' || c == '[' || c == ']' || c == ':' || c == ','

/-- The characters of words and numbers. -/
def isPlain (c : Char) : Bool :=
  !isSpace c && !isMark c && c != '\x22'

section

variable (words : List (String × Value))

/-- Reads a run of characters that is a word or a number. -/
def plain? (run : List Char) : Option Value :=
  match words.lookup (String.ofList run) with
  | some value => some value
  | none => number? run

/-- Cuts a text into lexemes. -/
def lexemes? : List Char → Option (List Lexeme)
  | [] => some []
  | c :: rest =>
      if isSpace c then lexemes? rest
      else if isMark c then (lexemes? rest).map (.mark c :: ·)
      else if c = '\x22' then
        match _hstring : string? rest with
        | none => none
        | some (value, behind) => (lexemes? behind).map (.string value :: ·)
      else
        match plain? words (c :: rest.takeWhile isPlain) with
        | none => none
        | some value => (lexemes? (rest.dropWhile isPlain)).map (.plain value :: ·)
termination_by text => text.length
decreasing_by
  · exact Nat.lt_succ_self _
  · exact Nat.lt_succ_self _
  · have := length_string? _hstring
    simp only [List.length_cons]
    omega
  · have := (List.dropWhile_suffix isPlain (l := rest)).length_le
    simp only [List.length_cons]
    omega

end

/-! ## Values -/

/-- An array or object that is still open, with what it holds so far.  An object has the name of the
member that is being read. -/
inductive Frame where
  | array (elements : List Value)
  | object (members : List (String × Value)) (name : String)

/-- Where a reader is: in front of a value, of the first element of an array, of the first name of
an object, of a further name, behind a name, or behind a value. -/
inductive State where
  | value (frames : List Frame)
  | firstElement (frames : List Frame)
  | firstName (frames : List Frame)
  | name (frames : List Frame) (members : List (String × Value))
  | colon (frames : List Frame) (members : List (String × Value)) (name : String)
  | behind (frames : List Frame) (value : Value)

/-- Takes the first lexeme of a value. -/
def beginValue? (frames : List Frame) : Lexeme → Option State
  | .mark c =>
      if c = '[' then some (.firstElement frames)
      else if c = '\x7b' then some (.firstName frames)
      else none
  | .string value => some (.behind frames (.string value))
  | .plain value => some (.behind frames value)

/-- Takes a mark behind a value: a comma, or the end of the array or object. -/
def endValue? (value : Value) (c : Char) : List Frame → Option State
  | [] => none
  | .array elements :: frames =>
      if c = ',' then some (.value (.array (elements ++ [value]) :: frames))
      else if c = ']' then some (.behind frames (.array (elements ++ [value])))
      else none
  | .object members name :: frames =>
      if c = ',' then some (.name frames (members ++ [(name, value)]))
      else if c = '\x7d' then some (.behind frames (.object (members ++ [(name, value)])))
      else none

/-- Takes one lexeme. -/
def step : State → Lexeme → Option State
  | .value frames, lexeme => beginValue? frames lexeme
  | .firstElement frames, .mark ']' => some (.behind frames (.array []))
  | .firstElement frames, lexeme => beginValue? (.array [] :: frames) lexeme
  | .firstName frames, .mark '\x7d' => some (.behind frames (.object []))
  | .firstName frames, .string name => some (.colon frames [] name)
  | .name frames members, .string name => some (.colon frames members name)
  | .colon frames members name, .mark ':' => some (.value (.object members name :: frames))
  | .behind frames value, .mark c => endValue? value c frames
  | _, _ => none

/-- The value of a text, if it has one under some words. -/
def read? (words : List (String × Value)) (text : List Char) : Option Value :=
  match (lexemes? words text).bind fun lexemes => lexemes.foldlM step (.value []) with
  | some (.behind [] value) => some value
  | _ => none

/-! ## Reading strings back -/

/-- The code units of a character are put together to the character. -/
theorem charsOfUnits?_codeUnits (c : Char) (rest : List Nat) :
    charsOfUnits? (codeUnits c.toNat ++ rest) = (charsOfUnits? rest).map (c :: ·) := by
  have valid : c.toNat < 0xD800 ∨ 0xDFFF < c.toNat ∧ c.toNat < 0x110000 := c.valid
  unfold codeUnits
  split
  · next first =>
    rw [List.singleton_append, charsOfUnits?.eq_def]
    dsimp only
    rw [if_neg (by omega), if_neg (by omega), Char.ofNat_toNat]
  · next beyond =>
    rw [List.cons_append, List.singleton_append, charsOfUnits?, if_pos (by omega)]
    have together : 0x10000 + (0xD800 + (c.toNat - 0x10000) / 0x400 - 0xD800) * 0x400 +
        (0xDC00 + (c.toNat - 0x10000) % 0x400 - 0xDC00) = c.toNat := by omega
    rw [if_pos (by omega), together, Char.ofNat_toNat]

/-- The code units of a text are put together to the text. -/
theorem charsOfUnits?_flatMap (text : List Char) :
    charsOfUnits? (text.flatMap fun c => codeUnits c.toNat) = some text := by
  induction text with
  | nil => rfl
  | cons c rest ih => rw [List.flatMap_cons, charsOfUnits?_codeUnits, ih, Option.map_some]

/-- An escaped code unit is read. -/
theorem escaped?_padded {code : Nat} (h : code < 0x10000) (rest : List Char) :
    escaped? ('u' :: (Numeral.padded 16 4 code ++ rest)) = some (code, rest) := by
  have width : (Numeral.padded 16 4 code).length = 4 :=
    Numeral.length_padded 16 (by decide) (by decide) h
  have digits : (Numeral.padded 16 4 code).all Numeral.isHexDigit = true :=
    List.all_eq_true.2 fun c hc => Numeral.isHexDigit_of_mem_padded 16 (by decide) (by decide) hc
  have front : (Numeral.padded 16 4 code ++ rest).take 4 = Numeral.padded 16 4 code :=
    List.take_left' width
  have back : (Numeral.padded 16 4 code ++ rest).drop 4 = rest := List.drop_left' width
  rw [escaped?, if_pos rfl, front, back, if_pos ⟨width, digits⟩,
    Numeral.value_padded 16 (by decide) (by decide)]

/-- The letter of a short escape is one of those that may stand behind a backslash. -/
theorem mem_of_shortEscape? {c letter : Char} (h : shortEscape? c = some letter) :
    letter ∈ ['\x22', '\\', '/', 'b', 'f', 'n', 'r', 't'] := by
  unfold shortEscape? at h
  repeat' split at h
  all_goals cases h
  case isTrue.refl hquote => rcases hquote with rfl | rfl <;> decide
  all_goals decide

/-- A short escape stands for the one code unit of its character. -/
theorem escaped?_of_shortEscape? {c letter : Char} (h : shortEscape? c = some letter)
    (rest : List Char) :
    escaped? (letter :: rest) = some (c.toNat, rest) ∧ codeUnits c.toNat = [c.toNat] := by
  unfold shortEscape? at h
  repeat' split at h
  all_goals cases h
  case isTrue.refl hquote => rcases hquote with rfl | rfl <;> exact ⟨rfl, rfl⟩
  all_goals
    subst_vars
    exact ⟨rfl, rfl⟩

/-- What stands behind a backslash is one code unit of the string. -/
theorem units?_backslash {text behind : List Char} {unit : Nat}
    (h : escaped? text = some (unit, behind)) :
    units? ('\\' :: text) = (units? behind).map fun (units, left) => (unit :: units, left) := by
  rw [units?, if_neg (by decide), if_pos rfl]
  split
  · next hnone => simp [h] at hnone
  · next hsome =>
    rw [h] at hsome
    cases hsome
    rfl

/-- An escaped code unit in front of a string is the first of the string. -/
theorem units?_unitEscape {code : Nat} (h : code < 0x10000) (rest : List Char) :
    units? (unitEscape code ++ rest) =
      (units? rest).map fun (units, left) => (code :: units, left) := by
  rw [unitEscape, List.cons_append, List.cons_append, units?_backslash (escaped?_padded h rest)]

/-- A character inside the quotes is read as its code units. -/
theorem units?_escape (c : Char) (rest : List Char) :
    units? (escape c ++ rest) =
      (units? rest).map fun (units, left) => (codeUnits c.toNat ++ units, left) := by
  have valid : c.toNat < 0xD800 ∨ 0xDFFF < c.toNat ∧ c.toNat < 0x110000 := c.valid
  rcases escape_cases c with
    ⟨letter, hletter, hescape⟩ | ⟨printable, hquote, hbackslash, hescape⟩ | hescape
  · obtain ⟨hescaped, hunits⟩ := escaped?_of_shortEscape? hletter rest
    rw [hescape, List.cons_append, List.singleton_append, units?_backslash hescaped, hunits]
    rfl
  · rw [hescape, List.singleton_append, units?, if_neg hquote, if_neg hbackslash,
      if_neg (by omega)]
  · rw [hescape]
    unfold codeEscape codeUnits
    split
    · next first => exact units?_unitEscape first rest
    · next beyond =>
      rw [List.append_assoc, units?_unitEscape (by omega), units?_unitEscape (by omega),
        Option.map_map]
      rfl

/-- A quoted string is read behind its opening quote. -/
theorem string?_escape (text : String) (rest : List Char) :
    string? (text.toList.flatMap escape ++ '\x22' :: rest) = some (text, rest) := by
  have units : ∀ chars : List Char, units? (chars.flatMap escape ++ '\x22' :: rest) =
      some (chars.flatMap fun c => codeUnits c.toNat, rest) := by
    intro chars
    induction chars with
    | nil => simp [units?]
    | cons c chars ih =>
        rw [List.flatMap_cons, List.append_assoc, units?_escape, ih, Option.map_some,
          List.flatMap_cons]
  rw [string?, units]
  dsimp only
  rw [charsOfUnits?_flatMap, Option.map_some, String.ofList_toList]

/-! ## Reading lexemes back -/

section

variable (words : List (String × Value))

/-- A quoted string is read as a single lexeme. -/
theorem lexemes?_quote (text : String) (rest : List Char) :
    lexemes? words ((quote text).toList ++ rest) =
      (lexemes? words rest).map (.string text :: ·) := by
  have quoted : (quote text).toList ++ rest =
      '\x22' :: (text.toList.flatMap escape ++ '\x22' :: rest) := by
    simp [quote]
  rw [quoted, lexemes?, if_neg (by decide), if_neg (by decide), if_pos rfl]
  split
  · next hnone => simp [string?_escape] at hnone
  · next value behind hsome =>
    rw [string?_escape] at hsome
    cases hsome
    rfl

/-- A mark is a lexeme. -/
theorem lexemes?_mark {c : Char} (h : isMark c = true) (hspace : isSpace c = false)
    (rest : List Char) :
    lexemes? words (c :: rest) = (lexemes? words rest).map (.mark c :: ·) := by
  rw [lexemes?, if_neg (by simp [hspace]), if_pos h]

/-- Space is left out. -/
theorem lexemes?_space {c : Char} (h : isSpace c = true) (rest : List Char) :
    lexemes? words (c :: rest) = lexemes? words rest := by
  rw [lexemes?, if_pos h]

/-- A word or number up to a mark is a lexeme. -/
theorem lexemes?_plain {run rest : List Char} {value : Value} (hne : run ≠ [])
    (hrun : ∀ c ∈ run, isPlain c = true) (hrest : ∀ c ∈ rest.head?, isPlain c = false)
    (hvalue : plain? words run = some value) :
    lexemes? words (run ++ rest) = (lexemes? words rest).map (.plain value :: ·) := by
  obtain ⟨c, more, rfl⟩ := List.exists_cons_of_ne_nil hne
  have hmore : ∀ c ∈ more, isPlain c = true := fun c hc => hrun c (List.mem_cons_of_mem _ hc)
  obtain ⟨taken, left⟩ := span_eq hmore hrest
  have plain := hrun c List.mem_cons_self
  simp only [isPlain, Bool.and_eq_true, Bool.not_eq_true', bne_iff_ne] at plain
  obtain ⟨⟨hspace, hmark⟩, hquote⟩ := plain
  rw [List.cons_append, lexemes?, if_neg (by simp [hspace]), if_neg (by simp [hmark]),
    if_neg hquote, taken, left, hvalue]

end

/-! ## Reading numbers back -/

/-- What stands behind the digits in front of a numeral. -/
theorem isFractional_of_isNumeral {parts : Binary64.Parts} (h : parts.IsNumeral) :
    isFractional ((if parts.fraction = [] then [] else '.' :: parts.fraction) ++
      parts.exponent) = true := by
  have exponent : isExponent parts.exponent = true := by
    rcases h.exponent with hnone | ⟨sign, digits, hsome, hsign, hne, hdigits⟩
    · rw [hnone]
      rfl
    · have unsigned : (Binary64.splitSign (sign :: digits)).2 = digits := by
        rcases hsign with rfl | rfl <;> rfl
      simp [hsome, isExponent, unsigned, hne, List.all_eq_true.2 hdigits]
  by_cases hpoint : parts.fraction = []
  · rcases h.exponent with hnone | ⟨sign, digits, hsome, -⟩
    · exact absurd hnone (h.real.resolve_left (not_not_intro hpoint))
    · rw [if_pos hpoint, List.nil_append]
      rw [hsome] at exponent ⊢
      exact exponent
  · obtain ⟨taken, left⟩ := span_eq h.fraction_isDigit
      fun c hc => (h.head?_exponent c hc).1
    rw [if_neg hpoint, List.cons_append]
    simp [isFractional, taken, left, hpoint, exponent]

/-- A numeral with a fraction or an exponent is read as the nearest number. -/
theorem number?_numeral {parts : Binary64.Parts} (h : parts.IsNumeral) (negative : Bool) :
    number? ((if negative then ['-'] else []) ++ parts.text) =
      (Binary64.ofText? ((if negative then ['-'] else []) ++ parts.text)).map .real := by
  have whole : isWhole parts.whole = true := by
    by_cases hzero : parts.whole.head? = some '0'
    · rw [h.whole_head? hzero]
      rfl
    · simp [isWhole, h.whole_ne_nil, hzero]
  have behind := isFractional_of_isNumeral h
  have some : (if parts.fraction = [] then [] else '.' :: parts.fraction) ++
      parts.exponent ≠ [] := by
    rcases h.real with hfraction | hexponent
    · simp [hfraction]
    · simp [hexponent]
  have undigited : ∀ c ∈ ((if parts.fraction = [] then [] else '.' :: parts.fraction) ++
      parts.exponent).head?, c.isDigit = false := by
    by_cases hpoint : parts.fraction = []
    · simpa [hpoint] using fun c hc => (h.head?_exponent c hc).1
    · simp [hpoint]
  obtain ⟨taken, left⟩ := span_eq h.whole_isDigit undigited
  rw [← Binary64.Parts.text] at taken left
  obtain ⟨c, rest, hcons, hc⟩ := h.exists_cons
  have unsigned : c ≠ '-' := by
    rintro rfl
    exact absurd hc (by decide)
  cases negative with
  | true => simp [number?, taken, left, whole, behind, some]
  | false =>
      have first : parts.text.head? ≠ Option.some '-' := by simp [hcons, unsigned]
      simp [number?, first, taken, left, whole, behind, some]

/-- The digits of a number stand in front of a point as they are. -/
theorem isWhole_toDigits (n : Nat) : isWhole (Nat.toDigits 10 n) = true := by
  rcases Nat.eq_zero_or_pos n with rfl | h
  · rfl
  · have first := Numeral.head?_toDigits_ne 10 (by decide) h
    simp [isWhole, Nat.toDigits_ne_nil, first]

/-- A whole number is read as an integer. -/
theorem number?_toDigits (n : Nat) (negative : Bool) :
    number? ((if negative then ['-'] else []) ++ Nat.toDigits 10 n) =
      some (.integer (if negative then -(n : Int) else n)) := by
  have digits : ∀ c ∈ Nat.toDigits 10 n, c.isDigit = true := fun c hc =>
    Nat.isDigit_of_mem_toDigits (by decide) (by decide) hc
  have taken := List.takeWhile_eq_self_iff.2 digits
  have left := List.dropWhile_eq_nil_iff.2 digits
  have denotes := Numeral.value_toDigits 10 (by decide) (by decide) n
  cases negative with
  | true => simp [number?, taken, left, isWhole_toDigits, isFractional, isExponent, denotes]
  | false =>
      have first : (Nat.toDigits 10 n).head? ≠ some '-' := by
        intro hminus
        exact absurd (digits '-' (List.mem_of_head? hminus)) (by decide)
      simp [number?, first, taken, left, isWhole_toDigits, isFractional, isExponent, denotes]

/-- The text of an integer is its digits behind its sign. -/
theorem toList_toString (n : Int) :
    (toString n).toList =
      (if decide (n < 0) then ['-'] else []) ++ Nat.toDigits 10 n.natAbs := by
  cases n with
  | ofNat n => exact Nat.toList_repr
  | negSucc n => simp [toString, Int.repr, Int.natAbs_negSucc, Nat.toList_repr]

/-- The text of an integer holds digits, and a minus in front of them. -/
theorem eq_minus_or_isDigit_of_mem_toString {n : Int} {c : Char} (h : c ∈ (toString n).toList) :
    c = '-' ∨ c.isDigit = true := by
  rw [toList_toString] at h
  rcases List.mem_append.1 h with hsign | hdigit
  · split at hsign
    · exact .inl (List.mem_singleton.1 hsign)
    · cases hsign
  · exact .inr (Nat.isDigit_of_mem_toDigits (by decide) (by decide) hdigit)

/-- An integer is read back from its text. -/
theorem number?_integer (n : Int) : number? (toString n).toList = some (.integer n) := by
  rw [toList_toString, number?_toDigits]
  have signed : (if decide (n < 0) = true then -(n.natAbs : Int) else n.natAbs) = n := by
    simp only [decide_eq_true_eq]
    split <;> omega
  rw [signed]

/-- What holds a digit is none of the words. -/
theorem plain?_of_digit {run : List Char} {c : Char} (hc : c ∈ run) (hdigit : c.isDigit = true) :
    plain? extendedWords run = number? run := by
  have letters : ∀ word ∈ extendedWords.map Prod.fst,
      word.toList.all (fun c => !c.isDigit) = true := by decide +kernel
  have none : extendedWords.lookup (String.ofList run) = none := by
    refine List.lookup_eq_none_iff.2 fun entry hentry => bne_iff_ne.2 fun hword => ?_
    have undigited := letters entry.1 (List.mem_map_of_mem hentry)
    rw [← hword, String.toList_ofList, List.all_eq_true] at undigited
    simpa [hdigit] using undigited c hc
  rw [plain?, none]

/-- A number is read back from its text, as are the words for the values that have no digits. -/
theorem plain?_text (v : Binary64) :
    plain? extendedWords (v.text Binary64.structuredWords).toList = some (.real v) := by
  have read := Binary64.ofText?_text (.inr rfl) v
  cases v with
  | nan => rfl
  | infinite negative => cases negative <;> rfl
  | finite negative rank =>
      obtain ⟨parts, hnumeral, htext, -⟩ := Binary64.exists_parts_magnitudeText rank.isLt
      obtain ⟨c, rest, hcons, hc⟩ := hnumeral.exists_cons
      rw [Binary64.text, String.toList_ofList, htext] at read ⊢
      have mem : c ∈ (if negative then ['-'] else []) ++ parts.text :=
        List.mem_append_right _ (hcons ▸ List.mem_cons_self)
      rw [plain?_of_digit mem hc, number?_numeral hnumeral, read, Option.map_some]

end Lox.Json
