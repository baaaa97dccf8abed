import Lox.Proofs.LineNumbers

/-!
# Cursors under any operations

A cursor can be told anything in any order.  Operations that move it by single characters do not
count the newlines they pass, marks put the start of a lexeme anywhere behind, and tokens can be
noted without a lexeme.  What a single operation can do is said once, as a turn; what holds after
any operations is kept by every turn.

Main results:

- Theorem `Cursor.turn_perform`: the ways in which an operation changes a cursor.
- Theorem `Cursor.run_induction`: what every step keeps holds all along a run.
- Theorem `Cursor.Within.turn`: a cursor keeps within its text, its line within the newlines read.
- Theorem `Cursor.Turn.grows`: a cursor never goes back and only appends to what it has found.
- Theorem `Cursor.run_within`: the law of operations, for every run over a text.
-/

namespace Lox

namespace Cursor

/-! ## Turns -/

/-- The ways in which an operation changes a cursor.  Questions and failed attempts leave it as it
is; a pass that fails starts a lexeme all the same. -/
inductive Turn (c : Cursor) : Operation → Cursor → Prop
  | stays {operation : Operation} (h : operation = .finish → c.done = true) : Turn c operation c
  | moves {operation : Operation} (h : operation = .advance ∨ ∃ text, operation = .matchNext text)
      (inside : c.current < c.source.length) :
      Turn c operation { c with current := c.current + 1 }
  | marks {operation : Operation} (h : operation = .mark ∨ operation = .pass) :
      Turn c operation c.mark
  | emits (type : TokenType) (literal : Option Literal) :
      Turn c (.emit type literal) (c.emit type literal)
  | reports (error : LexicalError) : Turn c (.report error) (c.report error)
  | passes {next : Cursor} (h : c.pass? = some next) : Turn c .pass next
  | finishes (h : c.done = false) : Turn c .finish c.finish

/-- Some text is ahead exactly inside the source. -/
theorem current_lt_of_ahead_cons {c : Cursor} {first : Char} {rest : List Char}
    (h : c.ahead = first :: rest) : c.current < c.source.length := by
  have lengths := congrArg List.length h
  simp only [ahead, List.length_drop, List.length_cons] at lengths
  omega

/-- The tokens of a cursor that has noted one. -/
theorem tokens_emit (c : Cursor) (type : TokenType) (literal : Option Literal) :
    (c.emit type literal).tokens =
      c.tokens ++ [⟨type, String.ofList c.lexeme, literal, c.startLine⟩] := by
  simp [tokens, emit]

/-- The reports of a cursor that has made one. -/
theorem diagnostics_report (c : Cursor) (error : LexicalError) :
    (c.report error).diagnostics = c.diagnostics ++ [.ofError c.line error] := by
  simp [diagnostics, report]

/-- Every operation takes one of the turns. -/
theorem turn_perform (c : Cursor) (operation : Operation) :
    Turn c operation (c.perform operation).2 := by
  cases operation with
  | atEnd => exact .stays nofun
  | peek => exact .stays nofun
  | peekNext => exact .stays nofun
  | matchNext expected =>
      change Turn c _ (c.matchNext expected).2
      unfold matchNext
      split
      · next hahead =>
        split
        · exact .moves (.inr ⟨expected, rfl⟩) (current_lt_of_ahead_cons hahead)
        · exact .stays nofun
      · exact .stays nofun
  | advance =>
      unfold perform advance?
      cases hahead : c.ahead with
      | nil => exact .stays nofun
      | cons first rest => exact .moves (.inl rfl) (current_lt_of_ahead_cons hahead)
  | mark => exact .marks (.inl rfl)
  | pass =>
      unfold perform
      cases hpass : c.pass? with
      | none => exact .marks (.inr rfl)
      | some next => exact .passes hpass
  | emit type literal => exact .emits type literal
  | report error => exact .reports error
  | finish =>
      cases hdone : c.done with
      | false => exact .finishes hdone
      | true =>
          have kept : c.finish = c := by rw [finish, if_pos hdone]
          unfold perform
          rw [kept]
          exact .stays fun _ => hdone

/-! ## Runs -/

/-- One operation carried out: the cursor before it, its answer and the cursor behind it. -/
structure Step where
  before : Cursor
  operation : Operation
  answer : Answer
  after : Cursor

/-- The step that an operation makes from a cursor. -/
def step (c : Cursor) (operation : Operation) : Step :=
  ⟨c, operation, (c.perform operation).1, (c.perform operation).2⟩

/-- The steps of a run. -/
def steps (c : Cursor) : List Operation → List Step
  | [] => []
  | operation :: rest => c.step operation :: (c.perform operation).2.steps rest

/-- A run in two parts. -/
theorem run_append (c : Cursor) (front back : List Operation) :
    c.run (front ++ back) = (c.run front).run back := by
  induction front generalizing c with
  | nil => rfl
  | cons operation front ih => exact ih (c.perform operation).2

/-- The steps of a run in two parts. -/
theorem steps_append (c : Cursor) (front back : List Operation) :
    c.steps (front ++ back) = c.steps front ++ (c.run front).steps back := by
  induction front generalizing c with
  | nil => rfl
  | cons operation front ih => exact congrArg (c.step operation :: ·) (ih (c.perform operation).2)

/-- Every step of a run is made by one of its operations from the cursor before it. -/
theorem eq_step_of_mem_steps {c : Cursor} {operations : List Operation} {made : Step}
    (h : made ∈ c.steps operations) :
    made.operation ∈ operations ∧ made = made.before.step made.operation := by
  induction operations generalizing c with
  | nil => cases h
  | cons operation rest ih =>
      rcases List.mem_cons.1 h with rfl | h
      · exact ⟨List.mem_cons_self, rfl⟩
      · obtain ⟨hmem, hstep⟩ := ih h
        exact ⟨List.mem_cons_of_mem operation hmem, hstep⟩

/-- What every step of a kind keeps holds all along a run of such steps. -/
theorem run_induction {P : Cursor → Prop} {R : Step → Prop}
    (keep : ∀ c operation, P c → R (c.step operation) → P (c.perform operation).2) {c : Cursor}
    {operations : List Operation} (hc : P c) (hsteps : ∀ made ∈ c.steps operations, R made) :
    P (c.run operations) ∧ ∀ made ∈ c.steps operations, P made.before := by
  induction operations generalizing c with
  | nil => exact ⟨hc, by simp [steps]⟩
  | cons operation rest ih =>
      obtain ⟨hfirst, hothers⟩ := List.forall_mem_cons.1 hsteps
      obtain ⟨hrun, hbefore⟩ := ih (keep c operation hc hfirst) hothers
      exact ⟨hrun, List.forall_mem_cons.2 ⟨hc, hbefore⟩⟩

/-! ## Within the text -/

/-- A cursor within its text: the lexeme starts behind it, its line is at most one more than the
newlines that it has read, and every token has a lexeme from the text. -/
structure Within (text : List Char) (c : Cursor) : Prop where
  source_eq : c.source = text
  start_le : c.start ≤ c.current
  current_le : c.current ≤ text.length
  startLine_pos : 1 ≤ c.startLine
  startLine_le : c.startLine ≤ c.line
  line_le : c.line ≤ 1 + newlines (text.take c.current)
  lexeme_infix : ∀ token ∈ c.tokens, token.lexeme.toList <:+: text

/-- A cursor in front of a text is within it. -/
theorem within_ofSource (source : String) : Within source.toList (ofSource source) where
  source_eq := rfl
  start_le := Nat.le_refl 0
  current_le := Nat.zero_le _
  startLine_pos := Nat.le_refl 1
  startLine_le := Nat.le_refl 1
  line_le := Nat.le_add_right 1 _
  lexeme_infix := fun _ htoken => absurd htoken List.not_mem_nil

/-- Text that is read adds its newlines to those already read. -/
theorem newlines_take_add (text : List Char) (m n : Nat) :
    newlines (text.take (m + n)) =
      newlines (text.take m) + newlines ((text.drop m).take n) := by
  rw [List.take_add, newlines_append]

namespace Within

variable {text : List Char} {c next : Cursor} {operation : Operation}

/-- The end of the text is where the cursor says so. -/
theorem atEnd_iff (hc : Within text c) : c.atEnd = true ↔ c.current = text.length := by
  have inside := hc.current_le
  rw [atEnd, List.isEmpty_iff, ahead, hc.source_eq, List.drop_eq_nil_iff]
  omega

/-- Moving over a character inside the text. -/
theorem moved (hc : Within text c) (inside : c.current < text.length) :
    Within text { c with current := c.current + 1 } := by
  refine { hc with start_le := Nat.le_succ_of_le hc.start_le, current_le := inside, line_le := ?_ }
  have bound := hc.line_le
  have more := newlines_take_add text c.current 1
  simp only at more ⊢
  omega

/-- Starting a lexeme. -/
theorem mark (hc : Within text c) : Within text c.mark :=
  { hc with
    start_le := Nat.le_refl c.current
    startLine_pos := Nat.le_trans hc.startLine_pos hc.startLine_le
    startLine_le := Nat.le_refl c.line }

/-- Noting a token for what has been read since the start of the lexeme. -/
theorem emit (hc : Within text c) (type : TokenType) (literal : Option Literal) :
    Within text (c.emit type literal) := by
  have from_text : c.lexeme <:+: text := by
    rw [lexeme, hc.source_eq]
    exact (List.drop_suffix _ _).isInfix.trans (List.take_prefix _ _).isInfix
  refine { hc with lexeme_infix := ?_ }
  intro token htoken
  rw [tokens_emit, List.mem_append, List.mem_singleton] at htoken
  rcases htoken with htoken | rfl
  · exact hc.lexeme_infix token htoken
  · rwa [String.toList_ofList]

/-- Making a report. -/
theorem report (hc : Within text c) (error : LexicalError) : Within text (c.report error) :=
  { hc with }

/-- A pass counts the newlines that it reads, and no others. -/
theorem pass? (hc : Within text c) (h : c.pass? = some next) : Within text next := by
  rcases exists_part_of_pass? h with ⟨part, hwf, -, rfl, hahead⟩
  have hdrop : text.drop c.current = part.text ++ (c.found part).ahead := by
    rw [← hc.source_eq]
    exact hahead
  have inside : c.current + part.text.length ≤ text.length := by
    have lengths := congrArg List.length hdrop
    have start := hc.current_le
    simp only [List.length_drop, List.length_append] at lengths
    omega
  have read : newlines (text.take (c.current + part.text.length)) =
      newlines (text.take c.current) + part.lineBreaks := by
    rw [newlines_take_add, hdrop, List.take_left, Segment.newlines_text hwf]
  refine
    { source_eq := hc.source_eq
      start_le := Nat.le_add_right c.current _
      current_le := inside
      startLine_pos := Nat.le_trans hc.startLine_pos hc.startLine_le
      startLine_le := Nat.le_add_right c.line _
      line_le := ?_
      lexeme_infix := ?_ }
  · have bound := hc.line_le
    change c.line + part.lineBreaks ≤ 1 + newlines (text.take (c.current + part.text.length))
    omega
  · intro token htoken
    rw [tokens_found, List.mem_append, Option.mem_toList] at htoken
    rcases htoken with htoken | htoken
    · exact hc.lexeme_infix token htoken
    · rw [Segment.lexeme_of_token? htoken, String.toList_ofList]
      exact (List.prefix_append part.text _).isInfix.trans
        (hdrop ▸ (List.drop_suffix c.current text).isInfix)

/-- Appending the closing token. -/
theorem close (hc : Within text c) :
    Within text { c with newestTokens := .eof c.line :: c.newestTokens, done := true } := by
  refine { hc with lexeme_infix := ?_ }
  intro token htoken
  rcases List.mem_cons.1 (List.mem_reverse.1 htoken) with rfl | htoken
  · exact List.nil_infix
  · exact hc.lexeme_infix token (List.mem_reverse.2 htoken)

/-- Running to the end. -/
theorem finish (hc : Within text c) : Within text c.finish := by
  cases hdone : c.done with
  | true => rwa [Cursor.finish, if_pos hdone]
  | false =>
      have hlast : Within text c.last :=
        forall_mem_passes (fun _ _ h hpass => h.pass? hpass) hc c.last c.last_mem
      rw [finish_eq hdone]
      exact hlast.close

/-- A cursor keeps within its text whatever it is told. -/
theorem turn (hc : Within text c) (h : Turn c operation next) : Within text next := by
  cases h with
  | stays => exact hc
  | moves _ inside => exact hc.moved (hc.source_eq ▸ inside)
  | marks => exact hc.mark
  | emits type literal => exact hc.emit type literal
  | reports error => exact hc.report error
  | passes hpass => exact hc.pass? hpass
  | finishes => exact hc.finish

end Within

/-- A cursor is within its text all along a run over it. -/
theorem within_run (source : String) (operations : List Operation) :
    Within source.toList ((ofSource source).run operations) ∧
      ∀ made ∈ (ofSource source).steps operations, Within source.toList made.before :=
  run_induction (R := fun _ => True) (fun d operation hd _ => hd.turn (turn_perform d operation))
    (within_ofSource source) (fun _ _ => trivial)

/-! ## Growing -/

/-- A cursor further on: it has not gone back and keeps all that has been found before. -/
structure Grows (c next : Cursor) : Prop where
  current_le : c.current ≤ next.current
  line_le : c.line ≤ next.line
  tokens_kept : c.tokens <+: next.tokens
  diagnostics_kept : c.diagnostics <+: next.diagnostics

namespace Grows

/-- A cursor is no further on than itself. -/
theorem refl (c : Cursor) : Grows c c where
  current_le := Nat.le_refl _
  line_le := Nat.le_refl _
  tokens_kept := List.prefix_rfl
  diagnostics_kept := List.prefix_rfl

/-- Further on and further on again. -/
theorem trans {c d e : Cursor} (h : Grows c d) (h' : Grows d e) : Grows c e where
  current_le := h.current_le.trans h'.current_le
  line_le := h.line_le.trans h'.line_le
  tokens_kept := h.tokens_kept.trans h'.tokens_kept
  diagnostics_kept := h.diagnostics_kept.trans h'.diagnostics_kept

end Grows

/-- A pass moves on and appends what it has found. -/
theorem grows_of_pass? {c next : Cursor} (h : c.pass? = some next) : Grows c next := by
  rcases exists_part_of_pass? h with ⟨part, -, -, rfl, -⟩
  exact
    { current_le := Nat.le_add_right c.current _
      line_le := Nat.le_add_right c.line _
      tokens_kept := by rw [tokens_found]; exact List.prefix_append _ _
      diagnostics_kept := by rw [diagnostics_found]; exact List.prefix_append _ _ }

/-- A run of passes moves on and appends what it has found. -/
theorem grows_last (c : Cursor) : Grows c c.last :=
  forall_mem_passes (fun _ _ h hpass => h.trans (grows_of_pass? hpass)) (Grows.refl c)
    c.last c.last_mem

/-- Running to the end appends the closing token behind what it has found. -/
theorem grows_finish {c : Cursor} (h : c.done = false) : Grows c c.finish where
  current_le := by
    rw [finish_eq h]
    exact (grows_last c).current_le
  line_le := by
    rw [finish_eq h]
    exact (grows_last c).line_le
  tokens_kept := by
    rw [tokens_finish h]
    exact (grows_last c).tokens_kept.trans (List.prefix_append _ _)
  diagnostics_kept := by
    rw [diagnostics_finish h]
    exact (grows_last c).diagnostics_kept

/-- Whatever a cursor is told, it does not go back and only appends to what it has found. -/
theorem Turn.grows {c next : Cursor} {operation : Operation} (h : Turn c operation next) :
    Grows c next := by
  cases h with
  | stays => exact .refl c
  | moves => exact { Grows.refl c with current_le := Nat.le_succ c.current }
  | marks => exact { Grows.refl c with }
  | emits type literal =>
      exact { Grows.refl c with
        tokens_kept := by rw [tokens_emit]; exact List.prefix_append _ _ }
  | reports error =>
      exact { Grows.refl c with
        diagnostics_kept := by rw [diagnostics_report]; exact List.prefix_append _ _ }
  | passes hpass => exact grows_of_pass? hpass
  | finishes hdone => exact grows_finish hdone

/-! ## What an operation answers -/

/-- Reading a character fails exactly at the end of the text. -/
theorem advance?_eq_none_iff (c : Cursor) : c.advance? = none ↔ c.atEnd = true := by
  rw [advance?, Option.map_eq_none_iff, List.head?_eq_none_iff, atEnd, List.isEmpty_iff]

/-- Only reading a character and a pass can fail, and they fail exactly at the end of the text. -/
theorem answer_eq_pastEnd_iff (c : Cursor) (operation : Operation) :
    (c.perform operation).1 = .pastEnd ↔
      (operation = .advance ∨ operation = .pass) ∧ c.atEnd = true := by
  cases operation with
  | advance =>
      rw [← advance?_eq_none_iff]
      cases h : c.advance? <;> simp [perform, h]
  | pass =>
      rw [← pass?_eq_none_iff]
      cases h : c.pass? <;> simp [perform, h]
  | _ => simp [perform]

/-- Reading a character that is not there changes nothing. -/
theorem perform_advance_of_atEnd {c : Cursor} (h : c.atEnd = true) :
    c.perform .advance = (.pastEnd, c) := by
  simp [perform, (advance?_eq_none_iff c).2 h]

/-- A pass over nothing starts a lexeme. -/
theorem perform_pass_of_atEnd {c : Cursor} (h : c.atEnd = true) :
    c.perform .pass = (.pastEnd, c.mark) := by
  simp [perform, (pass?_eq_none_iff c).2 h]

/-! ## The closing token -/

/-- Runs a cursor to the end. -/
def Operation.isFinish : Operation → Bool
  | .finish => true
  | _ => false

/-- A step that runs a cursor to the end for the first time. -/
def Step.closes (made : Step) : Bool :=
  made.operation.isFinish && !made.before.done

/-- Only running to the end finishes a cursor, which is then finished for good. -/
theorem Turn.done_eq {c next : Cursor} {operation : Operation} (h : Turn c operation next) :
    next.done = (c.done || operation.isFinish) := by
  cases h with
  | stays h =>
      cases operation with
      | finish => simp [h rfl]
      | _ => simp [Operation.isFinish]
  | moves h => rcases h with rfl | ⟨_, rfl⟩ <;> simp [Operation.isFinish]
  | marks h => rcases h with rfl | rfl <;> simp [Operation.isFinish, mark]
  | emits => simp [Operation.isFinish, emit]
  | reports => simp [Operation.isFinish, report]
  | passes h =>
      rcases exists_part_of_pass? h with ⟨part, -, -, rfl, -⟩
      simp [Operation.isFinish, found, mark]
  | finishes h => simp [finish_eq h, Operation.isFinish]

/-- A cursor is finished exactly if it has been run to the end. -/
theorem done_run (c : Cursor) (operations : List Operation) :
    (c.run operations).done = (c.done || operations.any Operation.isFinish) := by
  induction operations generalizing c with
  | nil => simp [run]
  | cons operation rest ih =>
      rw [run, ih, (turn_perform c operation).done_eq, List.any_cons, Bool.or_assoc]

/-- However often a cursor is run to the end, only the first time counts. -/
theorem countP_closes_steps (c : Cursor) (operations : List Operation) :
    (c.steps operations).countP Step.closes =
      if !c.done && operations.any Operation.isFinish then 1 else 0 := by
  induction operations generalizing c with
  | nil => simp [steps]
  | cons operation rest ih =>
      have first_counts : ∀ done here later : Bool,
          ((if !(done || here) && later then 1 else 0) + if here && !done then 1 else 0) =
            if !done && (here || later) then 1 else 0 := by decide
      rw [steps, List.countP_cons, ih, (turn_perform c operation).done_eq, List.any_cons]
      exact first_counts c.done operation.isFinish (rest.any Operation.isFinish)

/-- Running to the end for the first time appends the tokens that are still ahead and behind them
the closing token, which is the only one of its kind among them. -/
theorem exists_tokens_finish {c : Cursor} (h : c.done = false) :
    ∃ found : List Token, c.finish.tokens = c.tokens ++ found ++ [.eof c.finish.line] ∧
      ∀ token ∈ found, token.type ≠ .eof := by
  have hlast : ∃ found : List Token, c.last.tokens = c.tokens ++ found ∧
      ∀ token ∈ found, token.type ≠ .eof := by
    refine forall_mem_passes (P := fun d => ∃ found : List Token, d.tokens = c.tokens ++ found ∧
      ∀ token ∈ found, token.type ≠ .eof) ?_ ⟨[], by simp⟩ c.last c.last_mem
    rintro d next ⟨found, hfound, htypes⟩ hpass
    rcases exists_part_of_pass? hpass with ⟨part, -, -, rfl, -⟩
    refine ⟨found ++ (part.token? d.line).toList, ?_, ?_⟩
    · rw [tokens_found, hfound, List.append_assoc]
    · intro token htoken
      rw [List.mem_append, Option.mem_toList] at htoken
      rcases htoken with htoken | htoken
      · exact htypes token htoken
      · exact Segment.type_of_token? htoken
  obtain ⟨found, hfound, htypes⟩ := hlast
  exact ⟨found, by rw [tokens_finish h, hfound, finish_eq h], htypes⟩

/-! ## The law of operations -/

/-- What one operation may do in a text. -/
structure Lawful (text : List Char) (made : Step) : Prop where
  grows : Grows made.before made.after
  pastEnd_iff : made.answer = .pastEnd ↔
    (made.operation = .advance ∨ made.operation = .pass) ∧ made.before.current = text.length
  after_advance : made.operation = .advance → made.answer = .pastEnd → made.after = made.before
  after_pass : made.operation = .pass → made.answer = .pastEnd →
    made.after = { made.before with
      start := made.before.current, startLine := made.before.line }
  after_closes : made.closes = true → ∃ found : List Token,
    made.after.tokens = made.before.tokens ++ found ++ [⟨.eof, "", none, made.after.line⟩] ∧
      ∀ token ∈ found, token.type ≠ .eof
  after_finish : made.operation = .finish → made.closes = false → made.after = made.before

/-- Every operation on a cursor within a text is lawful. -/
theorem Within.lawful {text : List Char} {c : Cursor} (hc : Within text c)
    (operation : Operation) : Lawful text (c.step operation) where
  grows := (turn_perform c operation).grows
  pastEnd_iff := by
    change (c.perform operation).1 = .pastEnd ↔
      (operation = .advance ∨ operation = .pass) ∧ c.current = text.length
    rw [← hc.atEnd_iff]
    exact answer_eq_pastEnd_iff c operation
  after_advance := by
    rintro rfl hanswer
    have ended := ((answer_eq_pastEnd_iff c .advance).1 hanswer).2
    exact congrArg Prod.snd (perform_advance_of_atEnd ended)
  after_pass := by
    rintro rfl hanswer
    have ended := ((answer_eq_pastEnd_iff c .pass).1 hanswer).2
    exact congrArg Prod.snd (perform_pass_of_atEnd ended)
  after_closes := by
    intro hcloses
    obtain ⟨hfinish, hdone⟩ : operation.isFinish = true ∧ c.done = false := by
      simpa [Step.closes, step] using hcloses
    cases operation with
    | finish => exact exists_tokens_finish hdone
    | _ => cases hfinish
  after_finish := by
    rintro rfl hcloses
    have hdone : c.done = true := by simpa [Step.closes, step, Operation.isFinish] using hcloses
    change c.finish = c
    rw [Cursor.finish, if_pos hdone]

/-- A cursor whose place is changed by passes alone counts every newline. -/
theorem InStep.turn {text : List Char} {c next : Cursor} {operation : Operation}
    (hc : InStep text c) (h : Turn c operation next)
    (hmoved : next.current ≠ c.current → operation = .pass ∨ operation = .finish) :
    InStep text next := by
  cases h with
  | stays => exact hc
  | moves h =>
      rcases hmoved (Nat.succ_ne_self c.current) with rfl | rfl
      · rcases h with h | ⟨_, h⟩ <;> cases h
      · rcases h with h | ⟨_, h⟩ <;> cases h
  | marks => exact { hc with }
  | emits => exact { hc with }
  | reports => exact { hc with }
  | passes hpass => exact hc.pass? hpass
  | finishes hdone =>
      rw [finish_eq hdone]
      exact { hc.last.1 with }

/-- A run does not go back and only appends to what has been found behind any of its steps. -/
theorem grows_run (c : Cursor) (operations : List Operation) :
    Grows c (c.run operations) ∧
      ∀ made ∈ c.steps operations, Grows made.after (c.run operations) := by
  induction operations generalizing c with
  | nil => exact ⟨.refl c, by simp [steps]⟩
  | cons operation rest ih =>
      obtain ⟨hrest, hsteps⟩ := ih (c.perform operation).2
      exact ⟨(turn_perform c operation).grows.trans hrest,
        List.forall_mem_cons.2 ⟨hrest, hsteps⟩⟩

/-- The law of operations.  After any operations a cursor is within its text, and if only passes
have moved it, its line is one more than the newlines that it has read.  Every operation is lawful,
nothing found behind it is lost later on, and the closing token is appended once if the cursor is
ever run to the end. -/
theorem run_within (source : String) (operations : List Operation) :
    let c := (ofSource source).run operations
    let steps := (ofSource source).steps operations
    Within source.toList c ∧
      ((∀ made ∈ steps, made.after.current ≠ made.before.current →
          made.operation = .pass ∨ made.operation = .finish) →
        c.line = 1 + newlines (source.toList.take c.current)) ∧
      (∀ made ∈ steps, Lawful source.toList made ∧ Grows made.after c) ∧
      steps.countP Step.closes = if operations.any Operation.isFinish then 1 else 0 := by
  intro c steps
  obtain ⟨hwithin, hbefore⟩ := within_run source operations
  refine ⟨hwithin, ?_, ?_, ?_⟩
  · intro hmoved
    have hinStep : InStep source.toList c ∧ ∀ made ∈ steps, InStep source.toList made.before :=
      run_induction (fun d operation hd hmove => hd.turn (turn_perform d operation) hmove)
        (inStep_ofSource source) hmoved
    exact hinStep.1.line_eq
  · intro made hmade
    refine ⟨?_, (grows_run (ofSource source) operations).2 made hmade⟩
    rw [(eq_step_of_mem_steps hmade).2]
    exact (hbefore made hmade).lawful made.operation
  · exact countP_closes_steps (ofSource source) operations

/-- A character that does not match, passes with marks in between, and operations at the end. -/
theorem run_within_missed_match :
    let source := "1\n\"a\n\"@"
    let operations : List Operation :=
      [.matchNext "2", .pass, .mark, .pass, .pass, .finish, .advance, .pass, .finish]
    let c := (ofSource source).run operations
    let steps := (ofSource source).steps operations
    (∀ made ∈ steps, made.after.current ≠ made.before.current →
        made.operation = .pass ∨ made.operation = .finish) ∧
      c.line = 1 + newlines (source.toList.take c.current) ∧ steps.countP Step.closes = 1 := by
  intro source operations c steps
  obtain ⟨-, hline, -, hcloses⟩ := run_within source operations
  have hmoved : ∀ made ∈ steps, made.after.current ≠ made.before.current →
      made.operation = .pass ∨ made.operation = .finish := by
    have hsteps : ∀ made ∈ steps, (made.after.current == made.before.current ||
        match made.operation with
        | .pass | .finish => true
        | _ => false) = true := List.all_eq_true.1 (by decide +kernel)
    intro made hmade hne
    have hkind := hsteps made hmade
    rw [beq_false_of_ne hne, Bool.false_or] at hkind
    split at hkind
    · next hpass => exact .inl hpass
    · next hfinish => exact .inr hfinish
    · cases hkind
  exact ⟨hmoved, hline hmoved, hcloses⟩

end Cursor

end Lox
