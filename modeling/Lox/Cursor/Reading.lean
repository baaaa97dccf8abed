import Lox.Segment

/-!
# Reading by looking ahead

A cursor is a scan in progress: how far the text has been read, where the current lexeme starts, the
line, and what has been found.  It sees the next two characters, and a null character in the place
of each one that is not there.  Everything a scan does it does by moving a cursor over single
characters: it reads on while what it sees belongs to the lexeme, then notes a token or a report.

Reading a character fails at the end of the text.  A null character may stand in a text, so a loop
that reads on must either ask for the end or have no use for a null character.

A cursor keeps what it has found with the newest first; `Cursor.tokens` and `Cursor.diagnostics` are
the lists in order.

Main results:

- `Cursor.readWhile?_eq`: a loop reads the longest run of characters that pass its test, and never
  fails.
- `Cursor.readFrom?_eq`: reading by single characters finds the segment that is cut off the text.
-/

namespace Lox

/-- A scan in progress.  Positions count characters from zero, lines count from one. -/
structure Cursor where
  source : List Char
  start : Nat
  current : Nat
  startLine : Nat
  line : Nat
  newestTokens : List Token
  newestReports : List Diagnostic
  done : Bool

namespace Cursor

/-- A cursor in front of a text. -/
def ofSource (source : String) : Cursor where
  source := source.toList
  start := 0
  current := 0
  startLine := 1
  line := 1
  newestTokens := []
  newestReports := []
  done := false

/-- The tokens found so far, in order. -/
def tokens (c : Cursor) : List Token :=
  c.newestTokens.reverse

/-- The reports made so far, in order. -/
def diagnostics (c : Cursor) : List Diagnostic :=
  c.newestReports.reverse

/-! ## Looking ahead -/

/-- The text that has not been read yet. -/
def ahead (c : Cursor) : List Char :=
  c.source.drop c.current

/-- Nothing is left to read. -/
def atEnd (c : Cursor) : Bool :=
  c.ahead.isEmpty

/-- The next character, a null character at the end. -/
def peek (c : Cursor) : Char :=
  c.ahead.head?.getD '\x00'

/-- The character behind the next one, a null character at the end. -/
def peekNext (c : Cursor) : Char :=
  c.ahead.tail.head?.getD '\x00'

/-! ## Moving -/

/-- Reads the next character if it is the one expected. -/
def matchNext (c : Cursor) (expected : String) : Bool × Cursor :=
  match c.ahead with
  | next :: _ =>
      if expected.toList = [next] then (true, { c with current := c.current + 1 }) else (false, c)
  | [] => (false, c)

/-- Reads the next character, if there is one. -/
def advance? (c : Cursor) : Option (Char × Cursor) :=
  c.ahead.head?.map fun next => (next, { c with current := c.current + 1 })

/-- Starts a lexeme where the cursor stands. -/
def mark (c : Cursor) : Cursor :=
  { c with start := c.current, startLine := c.line }

/-- The text between the start of the lexeme and the cursor. -/
def lexeme (c : Cursor) : List Char :=
  (c.source.take c.current).drop c.start

/-- Appends a token for the lexeme. -/
def emit (c : Cursor) (type : TokenType) (literal : Option Literal) : Cursor :=
  { c with
    newestTokens := ⟨type, String.ofList c.lexeme, literal, c.startLine⟩ :: c.newestTokens }

/-- Reports an error on the line where the cursor stands. -/
def report (c : Cursor) (error : LexicalError) : Cursor :=
  { c with newestReports := .ofError c.line error :: c.newestReports }

/-- Reading a character leaves less to read. -/
theorem length_ahead_advance?_lt {c next : Cursor} {read : Char}
    (h : c.advance? = some (read, next)) : next.ahead.length < c.ahead.length := by
  simp only [advance?, Option.map_eq_some_iff, Prod.mk.injEq] at h
  obtain ⟨first, hfirst, rfl, rfl⟩ := h
  have some_left : c.ahead ≠ [] := by
    rintro hnil
    simp [hnil] at hfirst
  have := List.length_pos_iff.2 some_left
  simp only [ahead, List.length_drop] at this ⊢
  omega

/-! ## Reading one lexeme -/

/-- Reads on as long as a test of the cursor says so; may count the newlines that are read.  Fails
if the test says so at the end of the text. -/
def readWhile? (goesOn : Cursor → Bool) (counts : Bool) (c : Cursor) : Option Cursor :=
  if goesOn c then
    match h : c.advance? with
    | none => none
    | some (read, next) =>
        have := length_ahead_advance?_lt h
        readWhile? goesOn counts
          { next with line := if counts && read == '\n' then next.line + 1 else next.line }
  else some c
termination_by c.ahead.length

/-- Reads the rest of a comment.  The newline behind it is left to be counted by itself. -/
def readComment? (c : Cursor) : Option Cursor :=
  c.readWhile? (fun d => d.peek != '\n' && !d.atEnd) false

/-- Reads the rest of a string with its closing quote. -/
def readString? (c : Cursor) : Option Cursor := do
  let c ← c.readWhile? (fun d => d.peek != '"' && !d.atEnd) true
  if c.atEnd then
    return c.report .unterminatedString
  let (_, c) ← c.advance?
  let body := (c.source.take (c.current - 1)).drop (c.start + 1)
  return c.emit .string (some (.text (String.ofList body)))

/-- Reads digits.  There is no question for the end, where a null character is seen. -/
def readDigits? (c : Cursor) : Option Cursor :=
  c.readWhile? (fun d => d.peek.isDigit) false

/-- Reads the rest of a number. -/
def readNumber? (c : Cursor) : Option Cursor := do
  let c ← c.readDigits?
  let c ← if c.peek == '.' && c.peekNext.isDigit then
      c.advance?.bind fun (_, c) => c.readDigits?
    else some c
  let value ← Binary64.ofText? c.lexeme
  return c.emit .number (some (.number value))

/-- Reads the rest of a word. -/
def readWord? (c : Cursor) : Option Cursor := do
  let c ← c.readWhile? (fun d => isWordPart d.peek) false
  return c.emit (.ofWord c.lexeme) none

/-- Reads the equals sign that widens an operator, if there is one. -/
def readOperator (c : Cursor) (op : Operator) : Cursor :=
  match op.withEqual? with
  | some wide =>
      let (found, c) := c.matchNext "="
      c.emit (.operator (if found then wide else op)) none
  | none => c.emit (.operator op) none

/-- Reads the rest of whatever starts with the given character. -/
def readFrom? (first : Char) (c : Cursor) : Option Cursor :=
  if first = '/' then
    let (found, c) := c.matchNext "/"
    if found then c.readComment? else some (c.emit (.operator .slash) none)
  else match Operator.ofChar? first with
  | some op => some (c.readOperator op)
  | none =>
      if Segment.isSeparator first then some c
      else if first = '\n' then some { c with line := c.line + 1 }
      else if first = '"' then c.readString?
      else if first.isDigit then c.readNumber?
      else if isWordStart first then c.readWord?
      else some (c.report .unexpectedCharacter)

/-! ## What reading finds -/

/-- A cursor behind some text that it has read, with some newlines counted. -/
def past (c : Cursor) (read : List Char) (breaks : Nat) : Cursor :=
  { c with current := c.current + read.length, line := c.line + breaks }

@[simp] theorem past_past (c : Cursor) (first second : List Char) (m n : Nat) :
    (c.past first m).past second n = c.past (first ++ second) (m + n) := by
  simp [past, Nat.add_assoc]

/-- What is ahead behind some text that has been read. -/
theorem ahead_past {c : Cursor} {rest : List Char} (read : List Char)
    (h : c.ahead = read ++ rest) (breaks : Nat) : (c.past read breaks).ahead = rest := by
  rw [ahead] at h
  simp [ahead, past, ← List.drop_drop, h]

/-- A lexeme grows by the text that is read. -/
theorem lexeme_past {c : Cursor} {read rest : List Char} (hstart : c.start ≤ c.current)
    (h : c.ahead = read ++ rest) (breaks : Nat) :
    (c.past read breaks).lexeme = c.lexeme ++ read := by
  rw [ahead] at h
  by_cases hread : read = []
  · simp [hread, lexeme, past]
  have inside : c.current < c.source.length := by
    have lengths := congrArg List.length h
    have some_read := List.length_pos_iff.2 hread
    simp only [List.length_drop, List.length_append] at lengths
    omega
  have front : c.start ≤ (c.source.take c.current).length := by
    rw [List.length_take]
    omega
  simp only [lexeme, past]
  rw [List.take_add, h, List.take_left, List.drop_append_of_le_length front]

@[simp] theorem lexeme_mark (c : Cursor) : c.mark.lexeme = [] := by
  simp [lexeme, mark]

/-- What is ahead behind the text read since the start of the lexeme. -/
theorem ahead_mark_past {c : Cursor} {rest : List Char} (read : List Char)
    (h : c.ahead = read ++ rest) (breaks : Nat) : (c.mark.past read breaks).ahead = rest :=
  ahead_past (c := c.mark) read h breaks

/-- What has been read since the start of the lexeme is the lexeme. -/
theorem lexeme_mark_past {c : Cursor} {read rest : List Char} (h : c.ahead = read ++ rest)
    (breaks : Nat) : (c.mark.past read breaks).lexeme = read := by
  have grown := lexeme_past (c := c.mark) (Nat.le_refl _) h breaks
  rwa [lexeme_mark, List.nil_append] at grown

/-! ### Single characters -/

/-- Reading the first of the characters ahead. -/
theorem advance?_of_ahead {c : Cursor} {next : Char} {rest : List Char}
    (h : c.ahead = next :: rest) : c.advance? = some (next, c.past [next] 0) := by
  simp [advance?, h, past]

/-- Looking for one character. -/
theorem matchNext_singleton (c : Cursor) (wanted : Char) :
    c.matchNext (String.singleton wanted) =
      if c.ahead.head? = some wanted then (true, c.past [wanted] 0) else (false, c) := by
  unfold matchNext
  cases hahead : c.ahead with
  | nil => rfl
  | cons next rest => simp [past, eq_comm]

/-! ### Loops -/

/-- A test that asks for the end looks at the next character, if there is one. -/
theorem peek_and_not_atEnd (p : Char → Bool) (c : Cursor) :
    (p c.peek && !c.atEnd) = c.ahead.head?.any p := by
  unfold peek atEnd
  cases c.ahead <;> simp

/-- A test that has no use for a null character looks at the next character, if there is one. -/
theorem peek_of_not_null {p : Char → Bool} (h : p '\x00' = false) (c : Cursor) :
    p c.peek = c.ahead.head?.any p := by
  unfold peek
  cases c.ahead <;> simp [h]

/-- A loop ends where its test refuses. -/
theorem readWhile?_of_refused {goesOn : Cursor → Bool} {c : Cursor} (h : goesOn c = false)
    (counts : Bool) : c.readWhile? goesOn counts = some c := by
  rw [readWhile?, if_neg (by simp [h])]

/-- A loop moves over one character that its test passes. -/
theorem readWhile?_of_passed {goesOn : Cursor → Bool} {c : Cursor} {next : Char}
    {rest : List Char} (hpass : goesOn c = true) (hahead : c.ahead = next :: rest)
    (counts : Bool) :
    c.readWhile? goesOn counts =
      (c.past [next] (if counts && next == '\n' then 1 else 0)).readWhile? goesOn counts := by
  rw [readWhile?, if_pos hpass]
  split
  · next h => simp [advance?_of_ahead hahead] at h
  · next h =>
    rw [advance?_of_ahead hahead] at h
    cases h
    congr 1
    split <;> rfl

/-- A loop reads the longest run of characters that pass its test, and never fails. -/
theorem readWhile?_eq {goesOn : Cursor → Bool} {p : Char → Bool}
    (test : ∀ d : Cursor, goesOn d = d.ahead.head?.any p) (counts : Bool) (c : Cursor) :
    c.readWhile? goesOn counts =
      some (c.past (c.ahead.takeWhile p)
        (if counts then newlines (c.ahead.takeWhile p) else 0)) := by
  generalize hrest : c.ahead = rest
  induction rest generalizing c with
  | nil =>
      rw [readWhile?_of_refused (by simp [test, hrest])]
      cases counts <;> rfl
  | cons next rest ih =>
      by_cases hnext : p next = true
      · rw [readWhile?_of_passed (by simp [test, hrest, hnext]) hrest,
          ih _ (ahead_past [next] hrest _), past_past, List.takeWhile_cons_of_pos hnext]
        have counted : (if counts && next == '\n' then 1 else 0) +
            (if counts then newlines (rest.takeWhile p) else 0) =
              if counts then newlines (next :: rest.takeWhile p) else 0 := by
          cases counts <;> simp [newlines, List.count_cons, Nat.add_comm]
        rw [counted]
        rfl
      · rw [readWhile?_of_refused (by simp [test, hrest, hnext]), List.takeWhile_cons_of_neg hnext]
        cases counts <;> rfl

/-! ### Whole segments -/

/-- A cursor that has found a segment: it stands behind the segment and has noted what the segment
stands for. -/
def found (c : Cursor) (part : Segment) : Cursor :=
  { c.mark with
    current := c.current + part.text.length
    line := c.line + part.lineBreaks
    newestTokens := (part.token? c.line).toList ++ c.newestTokens
    newestReports := (part.report? c.line).toList ++ c.newestReports }

/-- Reading a segment that stands for nothing is finding it. -/
theorem past_eq_found {c : Cursor} (part : Segment) (htoken : part.token? c.line = none)
    (hreport : part.report? c.line = none) :
    c.mark.past part.text part.lineBreaks = c.found part := by
  simp [past, found, mark, htoken, hreport]

/-- Reading a lexeme and noting its token is finding it. -/
theorem emit_eq_found {c : Cursor} (part : Segment) {rest : List Char} {type : TokenType}
    {literal : Option Literal} (hahead : c.ahead = part.text ++ rest)
    (htoken : part.token? c.line = some ⟨type, String.ofList part.text, literal, c.line⟩)
    (hreport : part.report? c.line = none) :
    (c.mark.past part.text part.lineBreaks).emit type literal = c.found part := by
  unfold emit
  rw [lexeme_mark_past hahead]
  simp [past, found, mark, htoken, hreport]

/-- Reading a fault and reporting it is finding it. -/
theorem report_eq_found {c : Cursor} (part : Segment) (error : LexicalError)
    (htoken : part.token? c.line = none)
    (hreport : part.report? c.line =
      some (.ofError ((c.line + part.lineBreaks : Nat) : Int) error)) :
    (c.mark.past part.text part.lineBreaks).report error = c.found part := by
  simp [past, found, mark, report, htoken, hreport]

/-- A comment is read up to the next newline. -/
private theorem readComment?_eq {c : Cursor} {rest : List Char}
    (h : c.ahead = '/' :: '/' :: rest) :
    (c.mark.past ['/', '/'] 0).readComment? =
      some (c.found (.comment (rest.takeWhile (· != '\n')))) := by
  unfold readComment?
  rw [readWhile?_eq (peek_and_not_atEnd (· != '\n')), ahead_mark_past ['/', '/'] h, past_past]
  exact congrArg some (past_eq_found (.comment _) rfl rfl)

/-- A string is read with its closing quote, or up to the end if there is none. -/
private theorem readString?_eq {c : Cursor} {rest : List Char} (h : c.ahead = '"' :: rest) :
    (c.mark.past ['"'] 0).readString? = some (c.found (Segment.cutString rest).1) := by
  have whole : rest.takeWhile (· != '"') ++ rest.dropWhile (· != '"') = rest :=
    List.takeWhile_append_dropWhile
  unfold readString? Segment.cutString
  rw [readWhile?_eq (peek_and_not_atEnd (· != '"')), ahead_mark_past ['"'] h, past_past]
  generalize rest.takeWhile (· != '"') = body at whole ⊢
  cases hdrop : rest.dropWhile (· != '"') with
  | nil =>
      rw [hdrop, List.append_nil] at whole
      have ended : (c.mark.past ('"' :: body) (newlines body)).ahead = [] :=
        ahead_mark_past _ (by simp [h, whole]) _
      have reported : (c.mark.past ('"' :: body) (newlines body)).report .unterminatedString =
          c.found (.unterminated body) :=
        report_eq_found (.unterminated body) .unterminatedString rfl
          (by simp [Segment.report?, Segment.lineBreaks])
      simpa [atEnd, ended] using reported
  | cons quote back =>
      have closing : quote = '"' := by
        have := List.head?_dropWhile_not (· != '"') rest
        simpa [hdrop] using this
      subst closing
      rw [hdrop] at whole
      have behind : (c.mark.past ('"' :: body) (newlines body)).ahead = '"' :: back :=
        ahead_mark_past _ (by simp [h, ← whole]) _
      have opened : c.ahead = ('"' :: body) ++ '"' :: back := by simp [h, ← whole]
      have closed : c.ahead = (Segment.string body).text ++ back := by
        simp [h, ← whole, Segment.text]
      -- one character back from behind the closing quote stands the quote itself
      have back_one : (c.mark.past ('"' :: (body ++ ['"'])) (newlines body)).current - 1 =
          (c.mark.past ('"' :: body) 0).current := by
        simp [past, mark]
      have inner : ((c.mark.past ('"' :: (body ++ ['"'])) (newlines body)).source.take
          ((c.mark.past ('"' :: (body ++ ['"'])) (newlines body)).current - 1)).drop
            ((c.mark.past ('"' :: (body ++ ['"'])) (newlines body)).start + 1) = body := by
        rw [back_one, ← List.drop_drop]
        exact congrArg (List.drop 1) (lexeme_mark_past opened 0)
      have noted := emit_eq_found (.string body) closed rfl rfl
      simpa [atEnd, behind, advance?_of_ahead behind, inner, Segment.text, Segment.lineBreaks]
        using noted

/-- The digits in front of a text are digits. -/
private theorem isDigit_of_mem_takeWhile {rest : List Char} {c : Char}
    (h : c ∈ rest.takeWhile Char.isDigit) : c.isDigit = true :=
  List.all_eq_true.1 List.all_takeWhile c h

/-- Digits are read up to the first character that is none. -/
private theorem readDigits?_eq (c : Cursor) :
    c.readDigits? = some (c.past (c.ahead.takeWhile Char.isDigit) 0) :=
  readWhile?_eq (peek_of_not_null rfl) false c

/-- A point goes on a number exactly if a digit follows it. -/
private theorem peek_point_digit (c : Cursor) :
    c.peek = '.' ∧ c.peekNext.isDigit = true ↔
      ∃ d back, c.ahead = '.' :: d :: back ∧ d.isDigit = true := by
  unfold peek peekNext
  rcases c.ahead with _ | ⟨next, _ | ⟨d, back⟩⟩
  · simp
  · simp [show ('\x00').isDigit = false from rfl]
  · simp [and_assoc]

/-- A number is read as far as its digits go. -/
private theorem readNumber?_eq {c : Cursor} {first : Char} {rest : List Char}
    (hfirst : first.isDigit = true) (h : c.ahead = first :: rest) :
    (c.mark.past [first] 0).readNumber? = some (c.found (Segment.cutNumber first rest).1) := by
  have whole : rest.takeWhile Char.isDigit ++ rest.dropWhile Char.isDigit = rest :=
    List.takeWhile_append_dropWhile
  have digits : ∀ d ∈ first :: rest.takeWhile Char.isDigit, d.isDigit = true := by
    intro d hd
    rcases List.mem_cons.1 hd with rfl | hd
    · exact hfirst
    · exact isDigit_of_mem_takeWhile hd
  unfold readNumber?
  rw [readDigits?_eq, ahead_mark_past [first] h, past_past]
  by_cases hpoint : ∃ d back, rest.dropWhile Char.isDigit = '.' :: d :: back ∧ d.isDigit = true
  · obtain ⟨d, back, hdrop, hd⟩ := hpoint
    rw [Segment.cutNumber_of_point hdrop hd]
    generalize rest.takeWhile Char.isDigit = body at whole digits ⊢
    rw [hdrop] at whole
    have places : ∀ e ∈ d :: back.takeWhile Char.isDigit, e.isDigit = true := by
      intro e he
      rcases List.mem_cons.1 he with rfl | he
      · exact hd
      · exact isDigit_of_mem_takeWhile he
    have behind : (c.mark.past (first :: body) 0).ahead = '.' :: d :: back :=
      ahead_mark_past _ (by simp [h, whole]) _
    have pointed : (c.mark.past (first :: (body ++ ['.'])) 0).ahead = d :: back :=
      ahead_mark_past _ (by simp [h, ← whole]) _
    have part_ahead : c.ahead = (Segment.number (first :: body)
        (some (d :: back.takeWhile Char.isDigit))).text ++ back.dropWhile Char.isDigit := by
      simp [h, ← whole, Segment.text]
    have read := lexeme_mark_past part_ahead 0
    have value := Segment.ofText?_text_number (some (d :: back.takeWhile Char.isDigit))
      (List.cons_ne_nil first body) digits (by simpa using places)
    have noted := emit_eq_found (.number _ _) part_ahead rfl rfl
    simp only [Segment.text, List.cons_append] at read value noted
    simp only [past_past, (peek_point_digit _).2 ⟨d, back, behind, hd⟩, advance?_of_ahead behind,
      readDigits?_eq, pointed, List.takeWhile_cons_of_pos hd, List.cons_append, List.nil_append,
      List.append_assoc, Nat.add_zero, read, value, beq_iff_eq, Bool.and_eq_true, and_self,
      if_true, Option.bind_some, Option.pure_def, Option.bind_eq_bind]
    simpa [Segment.lineBreaks] using noted
  · rw [Segment.cutNumber_of_no_point hpoint]
    generalize rest.takeWhile Char.isDigit = body at whole digits ⊢
    have behind : (c.mark.past (first :: body) 0).ahead = rest.dropWhile Char.isDigit :=
      ahead_mark_past _ (by simp [h, whole]) _
    have part_ahead : c.ahead = (Segment.number (first :: body) none).text ++
        rest.dropWhile Char.isDigit := by
      simp [h, whole, Segment.text]
    have read := lexeme_mark_past part_ahead 0
    have value := Segment.ofText?_text_number none (List.cons_ne_nil first body) digits
      (by simp)
    have noted := emit_eq_found (.number _ _) part_ahead rfl rfl
    rw [← behind, ← peek_point_digit] at hpoint
    simp only [Segment.text] at read value noted
    simpa [hpoint, read, value, Segment.lineBreaks] using noted

/-- A word is read up to the first character that no word has. -/
private theorem readWord?_eq {c : Cursor} {first : Char} {rest : List Char}
    (h : c.ahead = first :: rest) :
    (c.mark.past [first] 0).readWord? =
      some (c.found (.word (first :: rest.takeWhile isWordPart))) := by
  have part_ahead : c.ahead =
      (Segment.word (first :: rest.takeWhile isWordPart)).text ++ rest.dropWhile isWordPart := by
    simp [h, Segment.text, List.takeWhile_append_dropWhile]
  have read := lexeme_mark_past part_ahead 0
  have noted := emit_eq_found (.word _) part_ahead rfl rfl
  have inWord : ∀ d : Cursor, isWordPart d.peek = d.ahead.head?.any isWordPart :=
    peek_of_not_null rfl
  unfold readWord?
  rw [readWhile?_eq inWord, ahead_mark_past [first] h, past_past]
  simp only [Segment.text] at read noted
  simpa [read, Segment.lineBreaks] using noted

/-- An operator is read with the equals sign that widens it. -/
private theorem readOperator_eq {c : Cursor} {first : Char} {op : Operator} {rest : List Char}
    (hop : Operator.ofChar? first = some op) (h : c.ahead = first :: rest) :
    (c.mark.past [first] 0).readOperator op = c.found (Segment.cutOperator op rest).1 := by
  have spelled := Operator.text_of_ofChar? hop
  have narrow : (c.mark.past [first] 0).emit (.operator op) none = c.found (.operator op) := by
    have part_ahead : c.ahead = (Segment.operator op).text ++ rest := by
      simp [Segment.text, spelled, h]
    simpa [Segment.text, spelled, Segment.lineBreaks] using
      emit_eq_found (.operator op) part_ahead rfl rfl
  unfold readOperator Segment.cutOperator
  cases hwide : op.withEqual? with
  | none => exact narrow
  | some wide =>
      have widened := Operator.text_of_withEqual? hwide
      rw [show "=" = String.singleton '=' from rfl, matchNext_singleton, ahead_mark_past [first] h]
      cases rest with
      | nil => exact narrow
      | cons next back =>
          by_cases hnext : next = '='
          · subst hnext
            have part_ahead : c.ahead = (Segment.operator wide).text ++ back := by
              simp [Segment.text, widened, spelled, h]
            simpa [Segment.text, widened, spelled, Segment.lineBreaks] using
              emit_eq_found (.operator wide) part_ahead rfl rfl
          · simpa [hnext] using narrow

/-- Reading by single characters finds the segment that is cut off the text. -/
theorem readFrom?_eq {c : Cursor} {first : Char} {rest : List Char} (h : c.ahead = first :: rest) :
    (c.mark.past [first] 0).readFrom? first = some (c.found (Segment.cut first rest).1) := by
  have behind : (c.mark.past [first] 0).ahead = rest := ahead_mark_past [first] h 0
  unfold readFrom?
  cases hop : Operator.ofChar? first with
  | some op =>
      by_cases hslash : first = '/'
      · subst hslash
        rw [if_pos rfl, show "/" = String.singleton '/' from rfl, matchNext_singleton, behind]
        by_cases hnext : rest.head? = some '/'
        · obtain ⟨back, rfl⟩ := List.head?_eq_some_iff.1 hnext
          rw [Segment.cut_comment]
          simpa using readComment?_eq h
        · rw [Segment.cut_of_operator hop (fun comment => hnext comment.2), if_neg hnext]
          cases hop
          exact congrArg some (emit_eq_found (.operator .slash) h rfl rfl)
      · rw [if_neg hslash, Segment.cut_of_operator hop (fun comment => hslash comment.1)]
        exact congrArg some (readOperator_eq hop h)
  | none =>
      have hslash : first ≠ '/' := by
        rintro rfl
        cases hop
      rw [if_neg hslash, Segment.cut_of_no_operator hop]
      by_cases hblank : Segment.isSeparator first = true
      · simp only [hblank, if_true]
        exact congrArg some (past_eq_found (.blank first) rfl rfl)
      by_cases hnewline : first = '\n'
      · subst hnewline
        exact congrArg some (past_eq_found .newline rfl rfl)
      by_cases hquote : first = '"'
      · subst hquote
        exact readString?_eq h
      by_cases hdigit : first.isDigit = true
      · simp only [hblank, hnewline, hquote, hdigit, if_true, if_false]
        exact readNumber?_eq hdigit h
      by_cases hword : isWordStart first = true
      · simp only [hblank, hnewline, hquote, hdigit, hword, if_true, if_false]
        exact readWord?_eq h
      · simp only [hblank, hnewline, hquote, hdigit, hword, if_false]
        exact congrArg some (report_eq_found (.unexpected first) .unexpectedCharacter rfl rfl)

end Cursor

end Lox
