import Lox.Proofs.LexicalClass
import Lox.Proofs.LineNumbers

/-!
# Lexemes

A lexeme is the text of a token: an operator, a word, a number or a string.  Its first character
tells its class, and the whole of it tells the segment that it is the text of.  So the lexemes of a
text tell its tokens, apart from the lines.

Main results:

- Theorem `Segment.segments_text`: a well-formed segment is the only segment of its text.
- Theorem `isLexeme_iff`: the lexemes are the texts of the segments that stand for tokens.
- Theorem `exists_lexemes`: the tokens of a scan are lexemes, apart from the closing one.
- Theorem `contents_eq_of_lexemes_eq`: texts with the same lexemes have the same tokens, apart from
  the lines.
-/

namespace Lox

namespace Segment

variable {part : Segment}

/-! ## Segments and their texts -/

/-- A segment stands for a token. -/
def isToken : Segment → Bool
  | operator _ => true
  | string _ => true
  | number _ _ => true
  | word _ => true
  | _ => false

/-- Every segment stops at the end of a text. -/
theorem stops_nil (part : Segment) : part.Stops [] := by
  cases part with
  | operator op => simp [Stops]
  | number whole fraction => cases fraction <;> simp [Stops]
  | _ => simp [Stops]

/-- A well-formed segment is the only segment of its text. -/
theorem segments_text (h : part.WellFormed) : segments part.text = [part] := by
  have alone := segments_append h part.stops_nil
  rwa [List.append_nil, segments] at alone

/-- The text of a segment tells the segment. -/
theorem eq_of_text_eq {other : Segment} (hpart : part.WellFormed) (hother : other.WellFormed)
    (h : part.text = other.text) : part = other := by
  have same : [part] = [other] := by
    rw [← segments_text hpart, ← segments_text hother, h]
  exact List.singleton_inj.1 same

/-- The text of a segment lies in no class but that of the segment. -/
theorem class?_of_inClass {kind : LexicalClass} (hwf : part.WellFormed)
    (h : InClass kind part.text) : part.class? = some kind := by
  rcases inClass_iff.1 h with ⟨other, hother, hkind, htext⟩
  rw [eq_of_text_eq hwf hother htext.symm]
  exact hkind

end Segment

/-! ## Lexemes by their first character -/

/-- The text of a token: an operator, a word, a number or a string. -/
def IsLexeme (text : List Char) : Prop :=
  InClass .operator text ∨ InClass .word text ∨ InClass .number text ∨ InClass .string text

/-- The lexemes are the texts of the segments that stand for tokens. -/
theorem isLexeme_iff {text : List Char} :
    IsLexeme text ↔
      ∃ part : Segment, part.WellFormed ∧ part.isToken = true ∧ part.text = text := by
  constructor
  · intro h
    have token {kind : LexicalClass} (hkind : InClass kind text)
        (htoken : ∀ part : Segment, part.class? = some kind → part.isToken = true) :
        ∃ part : Segment, part.WellFormed ∧ part.isToken = true ∧ part.text = text := by
      rcases inClass_iff.1 hkind with ⟨part, hwf, hclass, htext⟩
      exact ⟨part, hwf, htoken part hclass, htext⟩
    rcases h with h | h | h | h
    all_goals
      apply token h
      intro part hclass
      cases part <;> cases hclass
      rfl
  · rintro ⟨part, hwf, htoken, rfl⟩
    cases part with
    | operator op => exact Or.inl (Segment.inClass_text hwf rfl)
    | word word => exact Or.inr (Or.inl (Segment.inClass_text hwf rfl))
    | number whole fraction => exact Or.inr (Or.inr (Or.inl (Segment.inClass_text hwf rfl)))
    | string body => exact Or.inr (Or.inr (Or.inr (Segment.inClass_text hwf rfl)))
    | _ => cases htoken

/-- A number starts with a digit. -/
theorem InClass.isDigit_head {text : List Char} (h : InClass .number text) :
    ∃ c ∈ text.head?, c.isDigit = true := by
  have digits {run : List Char} (hrun : Segment.IsDigits run) :
      ∃ c ∈ run.head?, c.isDigit = true := by
    rcases List.exists_cons_of_ne_nil hrun.1 with ⟨c, rest, rfl⟩
    exact ⟨c, rfl, hrun.2 c List.mem_cons_self⟩
  cases h with
  | whole _ h => exact digits h
  | decimal whole places hwhole _ =>
      rw [List.head?_append_of_ne_nil _ hwhole.1]
      exact digits hwhole

/-- A word starts with a letter or an underscore. -/
theorem InClass.isWordStart_head {text : List Char} (h : InClass .word text) :
    ∃ c ∈ text.head?, isWordStart c = true := by
  cases h with
  | word _ h =>
      rcases h with ⟨c, rest, rfl, hstart, -⟩
      exact ⟨c, rfl, hstart⟩

namespace IsLexeme

variable {text : List Char}

/-- A lexeme holds at least one character. -/
theorem ne_nil (h : IsLexeme text) : text ≠ [] := by
  rcases h with h | h | h | h <;> exact h.ne_nil

private theorem isWordPart_operator {op : Operator} {c : Char} (h : c ∈ op.text.head?) :
    isWordPart c = false := by
  cases op <;> cases h <;> decide

/-- A lexeme that starts with a character of words is a word or a number. -/
theorem inClass_of_isWordPart (h : IsLexeme text) {c : Char} (hc : c ∈ text.head?)
    (hpart : isWordPart c = true) : InClass .word text ∨ InClass .number text := by
  rcases h with h | h | h | h
  · cases h with
    | operator op => simp [isWordPart_operator hc] at hpart
  · exact Or.inl h
  · exact Or.inr h
  · cases h with
    | string body _ =>
        cases hc
        cases hpart

/-- A lexeme that starts with a digit is a number. -/
theorem inClass_of_isDigit (h : IsLexeme text) {c : Char} (hc : c ∈ text.head?)
    (hdigit : c.isDigit = true) : InClass .number text := by
  rcases h.inClass_of_isWordPart hc (by simp [isWordPart, hdigit]) with hword | hnumber
  · rcases hword.isWordStart_head with ⟨d, hd, hstart⟩
    obtain rfl := Option.mem_unique hc hd
    simp [Segment.isDigit_of_isWordStart hstart] at hdigit
  · exact hnumber

/-- A lexeme that starts with a character of operators is an operator. -/
theorem exists_operator (h : IsLexeme text) {c : Char} (hc : c ∈ text.head?)
    (hop : c ∈ Operator.starts) : ∃ op : Operator, text = op.text := by
  have hpart : isWordPart c = false := by
    have apart : Operator.starts.all (fun d => !isWordPart d) = true := by decide
    simpa using List.all_eq_true.1 apart c hop
  rcases h with h | h | h | h
  · cases h with
    | operator op => exact ⟨op, rfl⟩
  · rcases h.isWordStart_head with ⟨d, hd, hstart⟩
    obtain rfl := Option.mem_unique hc hd
    simp [isWordPart, hstart] at hpart
  · rcases h.isDigit_head with ⟨d, hd, hdigit⟩
    obtain rfl := Option.mem_unique hc hd
    simp [isWordPart, hdigit] at hpart
  · cases h with
    | string body _ =>
        cases hc
        exact absurd hop (by decide)

/-- Only the slash starts with a slash. -/
theorem eq_slash (h : IsLexeme text) (hc : '/' ∈ text.head?) : text = ['/'] := by
  rcases h.exists_operator hc (by decide) with ⟨op, rfl⟩
  cases op <;> cases hc
  rfl

/-- Only the point starts with a point. -/
theorem eq_point (h : IsLexeme text) (hc : '.' ∈ text.head?) : text = ['.'] := by
  rcases h.exists_operator hc (by decide) with ⟨op, rfl⟩
  cases op <;> cases hc
  rfl

/-- Two operators start with an equals sign. -/
theorem eq_equal (h : IsLexeme text) (hc : '=' ∈ text.head?) :
    text = ['='] ∨ text = ['=', '='] := by
  rcases h.exists_operator hc (by decide) with ⟨op, rfl⟩
  cases op <;> cases hc
  · exact Or.inl rfl
  · exact Or.inr rfl

end IsLexeme

/-! ## The lexemes of a scan -/

namespace Segment

/-- A segment stands for a token exactly if it has one on every line. -/
theorem isSome_token? (part : Segment) (line : Int) :
    (part.token? line).isSome = part.isToken := by
  cases part <;> rfl

/-- No segment that stands for a token is reported. -/
theorem report?_of_isToken {part : Segment} (h : part.isToken = true) (line : Int) :
    part.report? line = none := by
  cases part <;> cases h <;> rfl

end Segment

/-- What a token says apart from its line. -/
def Token.content (token : Token) : TokenType × String × Option Literal :=
  (token.type, token.lexeme, token.literal)

/-- The lexemes of a scan, without the closing token. -/
def Scan.lexemes (result : Scan) : List String :=
  (result.tokens.filter fun token => decide (token.type ≠ .eof)).map Token.lexeme

/-- The segments of a text that stand for tokens. -/
def tokenSegments (text : List Char) : List Segment :=
  (segments text).filter Segment.isToken

/-- The segments of a text are well formed. -/
theorem wellFormed_of_mem_segments {text : List Char} {part : Segment} (h : part ∈ segments text) :
    part.WellFormed :=
  (fits_segments text).wellFormed_of_mem h

private theorem lexemes_tokensFrom (line : Nat) (parts : List Segment) :
    ((tokensFrom line parts).filter fun token => decide (token.type ≠ .eof)).map Token.lexeme =
      (parts.filter Segment.isToken).map fun part => String.ofList part.text := by
  induction parts generalizing line with
  | nil => rfl
  | cons part rest ih =>
      rw [tokensFrom, List.filter_append, List.map_append, ih]
      have found := part.isSome_token? line
      cases h : part.token? line with
      | none =>
          rw [h] at found
          rw [List.filter_cons_of_neg (by simp [← found])]
          rfl
      | some token =>
          rw [h] at found
          rw [List.filter_cons_of_pos (by simp [← found])]
          simp [Segment.type_of_token? h, Segment.lexeme_of_token? h]

/-- The lexemes of a scan are the texts of the segments that stand for tokens. -/
theorem lexemes_scan (source : String) :
    (scan source).lexemes =
      (tokenSegments source.toList).map fun part => String.ofList part.text :=
  lexemes_tokensFrom 1 (segments source.toList)

private theorem content_token? (part : Segment) (line : Int) :
    (part.token? line).map Token.content = (part.token? 0).map Token.content := by
  cases part <;> rfl

private theorem contents_tokensFrom (line : Nat) (parts : List Segment) :
    (tokensFrom line parts).map Token.content =
      (parts.filter Segment.isToken).filterMap (fun part => (part.token? 0).map Token.content) ++
        [(.eof, "", none)] := by
  induction parts generalizing line with
  | nil => rfl
  | cons part rest ih =>
      rw [tokensFrom, List.map_append, ih, ← Option.toList_map, content_token?]
      have found := part.isSome_token? 0
      cases h : part.token? 0 with
      | none =>
          rw [h] at found
          rw [List.filter_cons_of_neg (by simp [← found])]
          rfl
      | some token =>
          rw [h] at found
          rw [List.filter_cons_of_pos (by simp [← found]), List.filterMap_cons, h]
          rfl

/-- The segments that stand for tokens are those of the single lexemes. -/
private theorem tokenSegments_eq_flatMap (text : List Char) :
    tokenSegments text = ((tokenSegments text).map Segment.text).flatMap segments := by
  have single : ∀ part ∈ tokenSegments text, segments part.text = [part] := by
    intro part hpart
    exact Segment.segments_text (wellFormed_of_mem_segments (List.mem_filter.1 hpart).1)
  rw [List.flatMap_map, List.flatMap_congr single, List.flatMap_singleton']

/-- Texts with the same lexemes have the same tokens, apart from the lines. -/
theorem contents_eq_of_lexemes_eq {first second : String}
    (h : (scan first).lexemes = (scan second).lexemes) :
    (scan first).tokens.map Token.content = (scan second).tokens.map Token.content := by
  rw [lexemes_scan, lexemes_scan] at h
  have texts : (tokenSegments first.toList).map Segment.text =
      (tokenSegments second.toList).map Segment.text := by
    have spelled := congrArg (List.map String.toList) h
    simpa [Function.comp_def] using spelled
  have same : tokenSegments first.toList = tokenSegments second.toList := by
    rw [tokenSegments_eq_flatMap, texts, ← tokenSegments_eq_flatMap]
  have contents (source : String) : (scan source).tokens.map Token.content =
      (tokenSegments source.toList).filterMap (fun part => (part.token? 0).map Token.content) ++
        [(.eof, "", none)] := contents_tokensFrom 1 (segments source.toList)
  rw [contents, contents, same]

/-- The tokens of some segments are those of single segments and the closing one. -/
private theorem exists_tokens (line : Nat) (parts : List Segment) :
    ∃ tokens, tokensFrom line parts = tokens ++ [.eof (lineBehind line parts : Nat)] ∧
      ∀ token ∈ tokens, ∃ part ∈ parts, ∃ start, part.token? start = some token := by
  induction parts generalizing line with
  | nil => exact ⟨[], rfl, by simp⟩
  | cons part rest ih =>
      rcases ih (line + part.lineBreaks) with ⟨tokens, htokens, hfound⟩
      refine ⟨(part.token? line).toList ++ tokens, ?_, ?_⟩
      · rw [tokensFrom, htokens, List.append_assoc]
        rfl
      · intro token htoken
        rcases List.mem_append.1 htoken with hhere | hlater
        · exact ⟨part, List.mem_cons_self, line, Option.mem_toList.1 hhere⟩
        · rcases hfound token hlater with ⟨other, hother, start, hstart⟩
          exact ⟨other, List.mem_cons_of_mem part hother, start, hstart⟩

/-- Every token of a scan is that of a well-formed segment or the closing one. -/
theorem token?_or_eof_of_mem_scan {source : String} {token : Token}
    (h : token ∈ (scan source).tokens) :
    (∃ part : Segment, part.WellFormed ∧ ∃ line, part.token? line = some token) ∨
      ∃ line, token = .eof line := by
  rcases exists_tokens 1 (segments source.toList) with ⟨tokens, htokens, hfound⟩
  rw [scan, htokens] at h
  rcases List.mem_append.1 h with hlexeme | hclosing
  · rcases hfound token hlexeme with ⟨part, hpart, hline⟩
    exact .inl ⟨part, wellFormed_of_mem_segments hpart, hline⟩
  · exact .inr ⟨_, List.mem_singleton.1 hclosing⟩

/-- The tokens of a scan are lexemes, apart from the closing one. -/
theorem exists_lexemes (source : String) :
    ∃ tokens,
      (scan source).tokens = tokens ++ [.eof ((1 + newlines source.toList : Nat) : Int)] ∧
      ∀ token ∈ tokens, token.type ≠ .eof ∧ IsLexeme token.lexeme.toList := by
  rcases exists_tokens 1 (segments source.toList) with ⟨tokens, htokens, hfound⟩
  rw [lineBehind_eq (fits_segments source.toList), text_segments] at htokens
  refine ⟨tokens, htokens, ?_⟩
  intro token htoken
  rcases hfound token htoken with ⟨part, hpart, start, hstart⟩
  refine ⟨Segment.type_of_token? hstart, isLexeme_iff.2 ⟨part, ?_, ?_, ?_⟩⟩
  · exact wellFormed_of_mem_segments hpart
  · rw [← part.isSome_token? start, hstart]
    rfl
  · rw [Segment.lexeme_of_token? hstart, String.toList_ofList]

end Lox
