import Lox.Proofs.NumberLiterals
import Lox.Proofs.StructuredDump

/-!
# The grammar of structured output

The texts that RFC 8259 calls JSON texts, rule by rule.  The grammar has no word for infinity, and
this can be seen without reading a text by its rules: outside its strings no text of the grammar has
a capital I or a capital N.

So the line of a token is a JSON text unless the value of the token has no digits; and in a scan
those are the numbers that overflow.

Main results:

- Theorem `Json.isText_toJson_iff`: the line of a token is a JSON text exactly if its value, if it
  is a number, is finite.
- Theorem `isText_dump_iff`: the lines of a dump that are JSON texts.
-/

namespace Lox.Json

/-! ## Grammar -/

/-- White space that means nothing. -/
def IsGap (text : List Char) : Prop :=
  ∀ c ∈ text, isSpace c = true

/-- A structural character, with white space around it. -/
inductive IsStructural (c : Char) : List Char → Prop
  | around {front back : List Char} (hfront : IsGap front) (hback : IsGap back) :
      IsStructural c (front ++ c :: back)

/-- One character of a string, as it is written. -/
inductive IsCharacter : List Char → Prop
  | unescaped {c : Char} (hlow : 0x20 ≤ c.toNat) (hquote : c ≠ '\x22') (hbackslash : c ≠ '\\') :
      IsCharacter [c]
  | short {letter : Char} (h : letter ∈ ['\x22', '\\', '/', 'b', 'f', 'n', 'r', 't']) :
      IsCharacter ['\\', letter]
  | unit {digits : List Char} (hlength : digits.length = 4)
      (hdigits : ∀ d ∈ digits, Numeral.isHexDigit d = true) : IsCharacter ('\\' :: 'u' :: digits)

/-- The characters of a string, one behind the other. -/
inductive IsCharacters : List Char → Prop
  | nil : IsCharacters []
  | cons {first rest : List Char} (hfirst : IsCharacter first) (hrest : IsCharacters rest) :
      IsCharacters (first ++ rest)

/-- A string. -/
inductive IsString : List Char → Prop
  | quoted {body : List Char} (h : IsCharacters body) : IsString ('\x22' :: (body ++ ['\x22']))

/-- The digits in front of the point of a number. -/
inductive IsInteger : List Char → Prop
  | zero : IsInteger ['0']
  | digits {d : Char} {rest : List Char} (hd : d.isDigit = true) (hzero : d ≠ '0')
      (hrest : ∀ c ∈ rest, c.isDigit = true) : IsInteger (d :: rest)

/-- The fraction of a number, or nothing. -/
inductive IsFraction : List Char → Prop
  | none : IsFraction []
  | places {digits : List Char} (h : Segment.IsDigits digits) : IsFraction ('.' :: digits)

/-- The exponent of a number, or nothing. -/
inductive IsScale : List Char → Prop
  | none : IsScale []
  | exponent {letter : Char} {sign digits : List Char} (hletter : letter = 'e' ∨ letter = 'E')
      (hsign : sign = [] ∨ sign = ['+'] ∨ sign = ['-']) (hdigits : Segment.IsDigits digits) :
      IsScale (letter :: (sign ++ digits))

/-- A number. -/
inductive IsNumber : List Char → Prop
  | parts {sign integer fraction scale : List Char} (hsign : sign = [] ∨ sign = ['-'])
      (hinteger : IsInteger integer) (hfraction : IsFraction fraction) (hscale : IsScale scale) :
      IsNumber (sign ++ (integer ++ (fraction ++ scale)))

/-- What the rules for values derive: a value, values with commas between them, a member of an
object, members with commas between them. -/
inductive Rule where
  | value
  | values
  | member
  | members

/-- The rules for values. -/
inductive Derives : Rule → List Char → Prop
  | word {word : String} (h : word ∈ ["false", "null", "true"]) : Derives .value word.toList
  | number {text : List Char} (h : IsNumber text) : Derives .value text
  | string {text : List Char} (h : IsString text) : Derives .value text
  | emptyArray {opening closing : List Char} (hopening : IsStructural '[' opening)
      (hclosing : IsStructural ']' closing) : Derives .value (opening ++ closing)
  | array {opening values closing : List Char} (hopening : IsStructural '[' opening)
      (hvalues : Derives .values values) (hclosing : IsStructural ']' closing) :
      Derives .value (opening ++ (values ++ closing))
  | emptyObject {opening closing : List Char} (hopening : IsStructural '\x7b' opening)
      (hclosing : IsStructural '\x7d' closing) : Derives .value (opening ++ closing)
  | object {opening members closing : List Char} (hopening : IsStructural '\x7b' opening)
      (hmembers : Derives .members members) (hclosing : IsStructural '\x7d' closing) :
      Derives .value (opening ++ (members ++ closing))
  | lastValue {value : List Char} (h : Derives .value value) : Derives .values value
  | moreValues {value comma rest : List Char} (h : Derives .value value)
      (hcomma : IsStructural ',' comma) (hrest : Derives .values rest) :
      Derives .values (value ++ (comma ++ rest))
  | member {name colon value : List Char} (hname : IsString name)
      (hcolon : IsStructural ':' colon) (h : Derives .value value) :
      Derives .member (name ++ (colon ++ value))
  | lastMember {member : List Char} (h : Derives .member member) : Derives .members member
  | moreMembers {member comma rest : List Char} (h : Derives .member member)
      (hcomma : IsStructural ',' comma) (hrest : Derives .members rest) :
      Derives .members (member ++ (comma ++ rest))

/-- A JSON text: a value, with white space around it. -/
inductive IsText : List Char → Prop
  | around {front value back : List Char} (hfront : IsGap front) (h : Derives .value value)
      (hback : IsGap back) : IsText (front ++ (value ++ back))

/-! ## What is written follows the grammar -/

/-- Characters of strings go together. -/
theorem IsCharacters.append {front back : List Char} (h : IsCharacters front)
    (hback : IsCharacters back) : IsCharacters (front ++ back) := by
  induction h with
  | nil => exact hback
  | cons hfirst _ ih =>
      rw [List.append_assoc]
      exact .cons hfirst ih

/-- An escaped code unit is one character of a string. -/
theorem isCharacters_unitEscape {code : ℕ} (h : code < 0x10000) :
    IsCharacters (unitEscape code) := by
  have unit : IsCharacter (unitEscape code) :=
    .unit (Numeral.length_padded 16 (by decide) (by decide) h)
      fun _ hd => Numeral.isHexDigit_of_mem_padded 16 (by decide) (by decide) hd
  simpa using IsCharacters.cons unit .nil

/-- Every character is written by characters of a string. -/
theorem isCharacters_escape (c : Char) : IsCharacters (escape c) := by
  have valid : c.toNat < 0xD800 ∨ 0xDFFF < c.toNat ∧ c.toNat < 0x110000 := c.valid
  rcases escape_cases c with
    ⟨letter, hletter, hescape⟩ | ⟨printable, hquote, hbackslash, hescape⟩ | hescape
  · rw [hescape]
    exact .cons (.short (mem_of_shortEscape? hletter)) .nil
  · rw [hescape]
    exact .cons (.unescaped printable.1 hquote hbackslash) .nil
  · rw [hescape]
    unfold codeEscape
    split
    · next first => exact isCharacters_unitEscape first
    · next beyond =>
      exact (isCharacters_unitEscape (by omega)).append (isCharacters_unitEscape (by omega))

/-- A quoted text is a string. -/
theorem isString_quote (text : String) : IsString (quote text).toList := by
  have characters (body : List Char) : IsCharacters (body.flatMap escape) := by
    induction body with
    | nil => exact .nil
    | cons c body ih => exact (isCharacters_escape c).append ih
  rw [quote, String.toList_ofList]
  exact .quoted (characters _)

/-- Digits without a needless zero in front are those of a number. -/
theorem isInteger_of_head? {digits : List Char} (h : Segment.IsDigits digits)
    (hzero : digits.head? = some '0' → digits = ['0']) : IsInteger digits := by
  obtain ⟨d, rest, rfl⟩ := List.exists_cons_of_ne_nil h.1
  by_cases hd : d = '0'
  · subst hd
    rw [hzero rfl]
    exact .zero
  · exact .digits (h.2 d List.mem_cons_self) hd fun c hc => h.2 c (List.mem_cons_of_mem _ hc)

/-- A written integer is a number. -/
theorem isNumber_toString (n : ℤ) : IsNumber (toString n).toList := by
  have digits : Segment.IsDigits (Nat.toDigits 10 n.natAbs) :=
    ⟨Nat.toDigits_ne_nil, fun _ hc => Nat.isDigit_of_mem_toDigits (by decide) (by decide) hc⟩
  have integer : IsInteger (Nat.toDigits 10 n.natAbs) := by
    refine isInteger_of_head? digits fun hhead => ?_
    rcases Nat.eq_zero_or_pos n.natAbs with hzero | hpos
    · rw [hzero]
      rfl
    · exact absurd hhead (Numeral.head?_toDigits_ne 10 (by decide) hpos)
  have sign : (if decide (n < 0) then ['-'] else []) = [] ∨
      (if decide (n < 0) then ['-'] else []) = ['-'] := by
    split <;> simp
  have number := IsNumber.parts sign integer .none .none
  rw [List.append_nil, List.append_nil] at number
  rw [toList_toString]
  exact number

/-- A numeral with a sign or without one is a number. -/
theorem isNumber_of_isNumeral {parts : Binary64.Parts} (h : parts.IsNumeral) (negative : Bool) :
    IsNumber ((if negative then ['-'] else []) ++ parts.text) := by
  have sign : (if negative then ['-'] else []) = [] ∨
      (if negative then ['-'] else []) = ['-'] := by
    split <;> simp
  have fraction : IsFraction (if parts.fraction = [] then [] else '.' :: parts.fraction) := by
    split
    · exact .none
    · next some => exact .places ⟨some, h.fraction_isDigit⟩
  have scale : IsScale parts.exponent := by
    rcases h.exponent with hnone | ⟨mark, digits, hexponent, hmark, hdigits⟩
    · rw [hnone]
      exact .none
    · have sign : [mark] = [] ∨ [mark] = ['+'] ∨ [mark] = ['-'] := by
        rcases hmark with rfl | rfl <;> simp
      rw [hexponent]
      exact .exponent (.inl rfl) sign hdigits
  exact .parts sign (isInteger_of_head? ⟨h.whole_ne_nil, h.whole_isDigit⟩ h.whole_head?) fraction
    scale

/-! ## What stands outside strings -/

/-- Where a place in a text stands: outside all strings, inside one, or behind a backslash in
one. -/
inductive Place where
  | outside
  | inside
  | behindBackslash
  deriving DecidableEq

/-- The place behind a character.  A capital I and a capital N stand inside strings only. -/
def Place.next? : Place → Char → Option Place
  | outside, c =>
      if c = '\x22' then some inside else if c = 'I' ∨ c = 'N' then none else some outside
  | inside, c =>
      if c = '\x22' then some outside else if c = '\\' then some behindBackslash else some inside
  | behindBackslash, _ => some inside

/-- The place behind a text. -/
def Place.after? (place : Place) (text : List Char) : Option Place :=
  text.foldlM Place.next? place

/-- The place behind two texts. -/
theorem Place.after?_append (place : Place) (front back : List Char) :
    place.after? (front ++ back) = (place.after? front).bind (·.after? back) :=
  List.foldlM_append

/-- A text that starts outside all strings and ends there. -/
def IsShut (text : List Char) : Prop :=
  Place.outside.after? text = some .outside

instance : DecidablePred IsShut := fun _ => inferInstanceAs (Decidable (_ = _))

/-- What stands behind a text that is shut starts outside all strings. -/
theorem IsShut.after?_append {front : List Char} (h : IsShut front) (back : List Char) :
    Place.outside.after? (front ++ back) = Place.outside.after? back := by
  rw [Place.after?_append, h, Option.bind_some]

/-- Texts that are shut go together. -/
theorem IsShut.append {front back : List Char} (h : IsShut front) (hback : IsShut back) :
    IsShut (front ++ back) :=
  (h.after?_append back).trans hback

/-- What has no quote, no capital I and no capital N is shut. -/
theorem isShut_of_forall_mem {text : List Char}
    (h : ∀ c ∈ text, c ≠ '\x22' ∧ c ≠ 'I' ∧ c ≠ 'N') : IsShut text := by
  induction text with
  | nil => rfl
  | cons c text ih =>
      obtain ⟨⟨hquote, hI, hN⟩, hrest⟩ := List.forall_mem_cons.1 h
      have step : Place.outside.next? c = some .outside := by
        simp [Place.next?, hquote, hI, hN]
      rw [IsShut, Place.after?, List.foldlM_cons, step]
      exact ih hrest

/-- Characters of a class without a quote, a capital I and a capital N are shut. -/
theorem isShut_of_class {p : Char → Bool} (hquote : p '\x22' = false) (hI : p 'I' = false)
    (hN : p 'N' = false) {text : List Char} (h : ∀ c ∈ text, p c = true) : IsShut text := by
  have differs {c d : Char} (hc : c ∈ text) (hd : p d = false) : c ≠ d := by
    rintro rfl
    rw [h c hc] at hd
    cases hd
  exact isShut_of_forall_mem fun c hc => ⟨differs hc hquote, differs hc hI, differs hc hN⟩

/-- Digits are shut. -/
theorem isShut_digits {text : List Char} (h : ∀ c ∈ text, c.isDigit = true) : IsShut text :=
  isShut_of_class rfl rfl rfl h

/-- A number is shut. -/
theorem IsNumber.isShut {text : List Char} (h : IsNumber text) : IsShut text := by
  obtain ⟨hsign, hinteger, hfraction, hscale⟩ := h
  refine IsShut.append ?_ (IsShut.append ?_ (IsShut.append ?_ ?_))
  · rcases hsign with rfl | rfl <;> rfl
  · cases hinteger with
    | zero => rfl
    | digits hd _ hrest => exact isShut_digits (List.forall_mem_cons.2 ⟨hd, hrest⟩)
  · cases hfraction with
    | none => rfl
    | places h =>
        have point : IsShut ['.'] := rfl
        exact point.append (isShut_digits h.2)
  · cases hscale with
    | none => rfl
    | @exponent letter sign digits hletter hsign hdigits =>
        have letter_shut : IsShut [letter] := by rcases hletter with rfl | rfl <;> rfl
        have sign_shut : IsShut sign := by rcases hsign with rfl | rfl | rfl <;> rfl
        exact letter_shut.append (sign_shut.append (isShut_digits hdigits.2))

/-- Inside a string, what is neither a quote nor a backslash stays inside. -/
theorem after?_inside {text : List Char} (h : ∀ c ∈ text, c ≠ '\x22' ∧ c ≠ '\\') :
    Place.inside.after? text = some .inside := by
  induction text with
  | nil => rfl
  | cons c text ih =>
      obtain ⟨⟨hquote, hbackslash⟩, hrest⟩ := List.forall_mem_cons.1 h
      have step : Place.inside.next? c = some .inside := by
        simp [Place.next?, hquote, hbackslash]
      rw [Place.after?, List.foldlM_cons, step]
      exact ih hrest

/-- A character of a string stays inside. -/
theorem IsCharacter.after?_inside {text : List Char} (h : IsCharacter text) :
    Place.inside.after? text = some .inside := by
  cases h with
  | unescaped hlow hquote hbackslash =>
      exact Json.after?_inside (List.forall_mem_singleton.2 ⟨hquote, hbackslash⟩)
  | short h => rfl
  | @unit digits hlength hdigits =>
      have plain : ∀ d ∈ digits, d ≠ '\x22' ∧ d ≠ '\\' := by
        intro d hd
        have hex := hdigits d hd
        refine ⟨?_, ?_⟩ <;>
          · rintro rfl
            cases hex
      have inside := Json.after?_inside plain
      exact inside

/-- A string is shut. -/
theorem IsString.isShut {text : List Char} (h : IsString text) : IsShut text := by
  obtain ⟨hbody⟩ := h
  have body_inside : ∀ {body : List Char}, IsCharacters body →
      Place.inside.after? body = some .inside := by
    intro body h
    induction h with
    | nil => rfl
    | cons hfirst _ ih => rw [Place.after?_append, hfirst.after?_inside, Option.bind_some, ih]
  show Place.inside.after? _ = _
  rw [Place.after?_append, body_inside hbody, Option.bind_some]
  rfl

/-- White space is shut. -/
theorem IsGap.isShut {text : List Char} (h : IsGap text) : IsShut text :=
  isShut_of_class rfl rfl rfl h

/-- A structural character is shut. -/
theorem IsStructural.isShut {c : Char} {text : List Char} (h : IsStructural c text)
    (hmark : isMark c = true) : IsShut text := by
  obtain ⟨hfront, hback⟩ := h
  have one : IsShut [c] := isShut_of_class rfl rfl rfl (List.forall_mem_singleton.2 hmark)
  exact hfront.isShut.append (one.append hback.isShut)

/-- What the rules for values derive is shut. -/
theorem Derives.isShut {rule : Rule} {text : List Char} (h : Derives rule text) :
    IsShut text := by
  induction h with
  | word h =>
      simp only [List.mem_cons, List.not_mem_nil, or_false] at h
      rcases h with rfl | rfl | rfl <;> decide +kernel
  | number h => exact h.isShut
  | string h => exact h.isShut
  | emptyArray hopening hclosing => exact (hopening.isShut rfl).append (hclosing.isShut rfl)
  | array hopening _ hclosing ih =>
      exact (hopening.isShut rfl).append (ih.append (hclosing.isShut rfl))
  | emptyObject hopening hclosing => exact (hopening.isShut rfl).append (hclosing.isShut rfl)
  | object hopening _ hclosing ih =>
      exact (hopening.isShut rfl).append (ih.append (hclosing.isShut rfl))
  | lastValue _ ih => exact ih
  | moreValues _ hcomma _ ih ihrest => exact ih.append ((hcomma.isShut rfl).append ihrest)
  | member hname hcolon _ ih => exact hname.isShut.append ((hcolon.isShut rfl).append ih)
  | lastMember _ ih => exact ih
  | moreMembers _ hcomma _ ih ihrest => exact ih.append ((hcomma.isShut rfl).append ihrest)

/-- A JSON text is shut. -/
theorem IsText.isShut {text : List Char} (h : IsText text) : IsShut text := by
  obtain ⟨hfront, hvalue, hback⟩ := h
  exact hfront.isShut.append (hvalue.isShut.append hback.isShut)

/-! ## The line of a token -/

/-- There need not be white space. -/
theorem isGap_nil : IsGap [] := by
  simp [IsGap]

/-- A structural character may stand alone. -/
theorem isStructural_singleton (c : Char) : IsStructural c [c] :=
  .around isGap_nil isGap_nil

/-- A structural character may have a space behind it. -/
theorem isStructural_space (c : Char) : IsStructural c [c, ' '] :=
  .around isGap_nil (by simp [IsGap, isSpace])

/-- A member with a value of the grammar is one of the grammar. -/
theorem derives_member (name : String) {value : List Char} (h : Derives .value value) :
    Derives .member (member name value) := by
  have derived := Derives.member (isString_quote name) (isStructural_space ':') h
  rwa [List.cons_append, List.singleton_append, ← member] at derived

/-- A written value follows the grammar unless it is a number that is not finite. -/
theorem derives_written {literal : Option Literal}
    (h : ∀ v, literal = some (.number v) → v.toRat?.isSome = true) :
    Derives .value (Literal.written literal) := by
  rcases literal with _ | (text | v)
  · have null : Derives .value "null".toList := .word (by simp)
    exact null
  · exact .string (isString_quote text)
  · have finite := h v rfl
    cases v with
    | finite negative rank =>
        obtain ⟨parts, hnumeral, htext, -⟩ := Binary64.exists_parts_magnitudeText rank.isLt
        have number := isNumber_of_isNumeral hnumeral negative
        rw [← htext] at number
        have written : Literal.written (some (.number (.finite negative rank))) =
            (if negative then ['-'] else []) ++ Binary64.magnitudeText rank :=
          String.toList_ofList
        rw [written]
        exact .number number
    | _ => cases finite

/-- A number that is not finite is written by a word with a capital letter. -/
theorem after?_written {v : Binary64} (h : v.toRat?.isSome = false) (rest : List Char) :
    Place.outside.after? (Literal.written (some (.number v)) ++ rest) = none := by
  have refused : Place.outside.after? (Literal.written (some (.number v))) = none := by
    cases v with
    | nan => decide +kernel
    | infinite negative => cases negative <;> decide +kernel
    | finite negative rank => cases h
  rw [Place.after?_append, refused, Option.bind_none]

/-- The line of a token is a JSON text exactly if its value, if it is a number, is finite. -/
theorem isText_toJson_iff (t : Token) :
    IsText t.toJson.toList ↔ ∀ v, t.literal = some (.number v) → v.toRat?.isSome = true := by
  have opening := isStructural_singleton '\x7b'
  have comma := isStructural_space ','
  have closing := isStructural_singleton '\x7d'
  have type := derives_member "type" (.string (isString_quote t.type.name))
  have lexeme := derives_member "lexeme" (.string (isString_quote t.lexeme))
  have line := derives_member "line" (.number (isNumber_toString t.line))
  rw [Token.toList_toJson]
  constructor
  · intro htext v hv
    by_contra hfinite
    -- the line is shut up to the value, and the value cannot stand there
    have name := (isString_quote "literal").isShut.append ((isStructural_space ':').isShut rfl)
    have before := (opening.isShut rfl).append (type.isShut.append ((comma.isShut rfl).append
      (lexeme.isShut.append ((comma.isShut rfl).append name))))
    have refused := after?_written (Bool.eq_false_iff.2 hfinite)
      (',' :: ' ' :: (member "line" (toString t.line).toList ++ ['\x7d']))
    rw [← before.after?_append, ← hv] at refused
    have shut := htext.isShut
    simp only [IsShut, member, List.append_assoc, List.cons_append, List.nil_append]
      at shut refused
    rw [shut] at refused
    cases refused
  · intro hfinite
    have literal := derives_member "literal" (derives_written hfinite)
    have members := Derives.moreMembers type comma
      (.moreMembers lexeme comma (.moreMembers literal comma (.lastMember line)))
    have text := IsText.around isGap_nil (Derives.object opening members closing) isGap_nil
    simpa using text

end Lox.Json

namespace Lox

/-! ## Dumps -/

/-- The value of a token of a scan, if it is a number, is finite unless the token is a numeral that
overflows. -/
theorem isSome_toRat?_iff_of_mem_scan {source : String} {token : Token}
    (h : token ∈ (scan source).tokens) :
    (∀ v, token.literal = some (.number v) → v.toRat?.isSome = true) ↔
      ¬(token.type = .number ∧ Binary64.overflow ≤ Numeral.rational token.lexeme.toList) := by
  by_cases htype : token.type = .number
  · obtain ⟨whole, fraction, hwf, hlexeme, hliteral⟩ := exists_number_of_mem_scan h htype
    rw [and_iff_right htype, hlexeme, String.toList_ofList,
      ← (Segment.isRounding_numberValue hwf).isSome_toRat?_iff, hliteral]
    simp
  · refine iff_of_true (fun v hv => ?_) (fun overflows => htype overflows.1)
    exact absurd (type_of_literal_number h hv) htype

/-- Each line of a dump is a JSON text unless its token is a numeral that overflows. -/
theorem isText_dump_iff (source : String) :
    ∃ lines, splitLines (dump .json (scan source).tokens).toList = lines ++ [[]] ∧
      List.Forall₂ (fun token line => Json.IsText line ↔
        ¬(token.type = .number ∧ Binary64.overflow ≤ Numeral.rational token.lexeme.toList))
        (scan source).tokens lines := by
  refine ⟨_, splitLines_dump _, ?_⟩
  rw [List.forall₂_map_right_iff, List.forall₂_same]
  intro token htoken
  rw [Json.isText_toJson_iff, isSome_toRat?_iff_of_mem_scan htoken]

/-- Some lines of dumps are no JSON texts. -/
theorem exists_line_without_text :
    ¬∀ source : String, ∀ line ∈ (splitLines (dump .json (scan source).tokens).toList).dropLast,
      Json.IsText line := by
  intro h
  have numeral (zeros : ℕ) :
      (Segment.number ('1' :: List.replicate zeros '0') none).WellFormed :=
    ⟨⟨List.cons_ne_nil _ _, by simp⟩, by simp⟩
  have infinite : Segment.numberValue ('1' :: List.replicate 309 '0') none = .infinite false := by
    decide +kernel
  have lines := h (String.ofList (Segment.number ('1' :: List.replicate 309 '0') none).text)
  rw [splitLines_dump, List.dropLast_concat, Segment.scan_number (numeral 309), infinite] at lines
  have text := (Json.isText_toJson_iff _).1 (lines _ List.mem_cons_self) _ rfl
  cases text

end Lox
