import Lox.Proofs.Operations
import Lox.Proofs.Resumption

/-!
# Driving a scan by hand

A scan can be driven pass by pass, with questions and marks in between, before it is run to the end.
None of this shows in what it finds: a run completes the scan from wherever it was left.  A cursor
that has been run to the end is spent: it answers as before, but finds nothing more.

Main results:

- Theorem `Cursor.Completes.turn`: questions, marks and passes leave a cursor that completes the
  scan.
- Theorem `Cursor.Spent.turn`: a spent cursor stays spent.
- Theorem `Cursor.countP_isPass_steps_le`: every pass that finds a segment moves the cursor on.
- Theorem `Cursor.run_driven`: a scan driven by hand and then run to the end is the scan of the
  text, and nothing is found behind it.
-/

namespace Lox

namespace Cursor

variable {source : String} {c next : Cursor} {operation : Operation}

/-! ## Before the end -/

/-- Operations that drive a scan by hand: questions, marks and passes. -/
def Operation.isDriving : Operation → Bool
  | .atEnd | .peek | .peekNext | .mark | .pass => true
  | _ => false

/-- Driving does not run to the end. -/
theorem Operation.isFinish_of_isDriving (h : operation.isDriving = true) :
    operation.isFinish = false := by
  cases operation with
  | finish => cases h
  | _ => rfl

/-- Questions, marks and passes leave a cursor that completes the scan. -/
theorem Completes.turn (hc : Completes source c) (h : Turn c operation next)
    (hdriving : operation.isDriving = true) : Completes source next := by
  cases h with
  | stays => exact hc
  | moves h => rcases h with rfl | ⟨_, rfl⟩ <;> cases hdriving
  | marks => exact { hc with inStep := { hc.inStep with } }
  | emits => cases hdriving
  | reports => cases hdriving
  | passes hpass => exact hc.pass? hpass
  | finishes => cases hdriving

/-- A scan driven by hand can still be completed. -/
theorem completes_run (source : String) {operations : List Operation}
    (hdriving : ∀ operation ∈ operations, operation.isDriving = true) :
    Completes source ((ofSource source).run operations) ∧
      ((ofSource source).run operations).done = false := by
  constructor
  · refine (run_induction (R := fun made => made.operation.isDriving = true)
      (fun d operation hd hop => hd.turn (turn_perform d operation) hop)
      (completes_ofSource source) ?_).1
    intro made hmade
    exact hdriving made.operation (eq_step_of_mem_steps hmade).1
  · rw [done_run, Bool.or_eq_false_iff, List.any_eq_false]
    refine ⟨rfl, ?_⟩
    intro operation hoperation
    simp [Operation.isFinish_of_isDriving (hdriving operation hoperation)]

/-! ## Behind the end -/

/-- A spent cursor: it has been run to the end, and what it has found is the scan of the text. -/
structure Spent (source : String) (c : Cursor) : Prop where
  done_eq : c.done = true
  atEnd_eq : c.atEnd = true
  tokens_eq : c.tokens = (scan source).tokens
  diagnostics_eq : c.diagnostics = (scan source).diagnostics

/-- A cursor that completes the scan is spent when it has been run to the end. -/
theorem Completes.finish (hc : Completes source c) (hdone : c.done = false) :
    Spent source c.finish where
  done_eq := by rw [finish_eq hdone]
  atEnd_eq := by
    rw [finish_eq hdone]
    exact (pass?_eq_none_iff c.last).1 (pass?_last c)
  tokens_eq := by rw [tokens_finish hdone, tokens_last, hc.tokens_eq]
  diagnostics_eq := by rw [diagnostics_finish hdone, diagnostics_last, hc.diagnostics_eq]

/-- Running a spent cursor to the end changes nothing. -/
theorem Spent.finish_eq (hc : Spent source c) : c.finish = c := by
  rw [Cursor.finish, if_pos hc.done_eq]

/-- A spent cursor stays spent. -/
theorem Spent.turn (hc : Spent source c) (h : Turn c operation next)
    (hoperation : operation.isDriving = true ∨ operation = .finish) : Spent source next := by
  cases h with
  | stays => exact hc
  | moves h => rcases h with rfl | ⟨_, rfl⟩ <;> rcases hoperation with h | h <;> cases h
  | marks => exact { hc with }
  | emits => rcases hoperation with h | h <;> cases h
  | reports => rcases hoperation with h | h <;> cases h
  | passes hpass =>
      rw [(pass?_eq_none_iff c).2 hc.atEnd_eq] at hpass
      cases hpass
  | finishes hdone =>
      rw [hc.done_eq] at hdone
      cases hdone

/-- A spent cursor stays spent all along a run. -/
theorem Spent.run (hc : Spent source c) {operations : List Operation}
    (hoperations : ∀ operation ∈ operations,
      operation.isDriving = true ∨ operation = .finish) :
    ∀ made ∈ c.steps operations, Spent source made.before ∧ Spent source made.after := by
  have hkinds : ∀ made ∈ c.steps operations,
      made.operation.isDriving = true ∨ made.operation = .finish := fun made hmade =>
    hoperations made.operation (eq_step_of_mem_steps hmade).1
  have hbefore := (run_induction
    (R := fun made => made.operation.isDriving = true ∨ made.operation = .finish)
    (fun d operation (hd : Spent source d) hop => hd.turn (turn_perform d operation) hop)
    hc hkinds).2
  intro made hmade
  refine ⟨hbefore made hmade, ?_⟩
  rw [(eq_step_of_mem_steps hmade).2]
  exact (hbefore made hmade).turn (turn_perform made.before made.operation) (hkinds made hmade)

/-! ## Counting passes -/

/-- A pass that has found a segment. -/
def Step.isPass (made : Step) : Bool :=
  match made.operation, made.answer with
  | .pass, .nothing => true
  | _, _ => false

/-- A pass moves the cursor on. -/
theorem current_lt_of_pass? (h : c.pass? = some next) : c.current < next.current := by
  rcases exists_part_of_pass? h with ⟨part, hwf, -, rfl, -⟩
  exact Nat.lt_add_of_pos_right (List.length_pos_iff.2 (Segment.text_ne_nil hwf))

/-- A pass that has found a segment has moved the cursor on. -/
theorem current_lt_of_isPass (h : (c.step operation).isPass = true) :
    c.current < (c.perform operation).2.current := by
  cases operation with
  | pass =>
      cases hpass : c.pass? with
      | none => simp [step, Step.isPass, perform, hpass] at h
      | some next => simpa [perform, hpass] using current_lt_of_pass? hpass
  | _ => simp [step, Step.isPass] at h

/-- A run reads at least as many characters as it has passes that find a segment. -/
theorem countP_isPass_steps_le (c : Cursor) (operations : List Operation) :
    (c.steps operations).countP Step.isPass + c.current ≤ (c.run operations).current := by
  induction operations generalizing c with
  | nil => simp [steps, run]
  | cons operation rest ih =>
      have later := ih (c.perform operation).2
      have here := (turn_perform c operation).grows.current_le
      rw [steps, List.countP_cons, run]
      split
      · next hpass =>
        have moved := current_lt_of_isPass hpass
        omega
      · omega

/-! ## The whole drive -/

/-- A scan that is driven by hand and then run to the end finds the tokens and makes the reports of
a scan of the text, and nothing that is done to it afterwards adds any.  Whenever it is run to the
end it answers with the same tokens, and no more passes find a segment than there are characters. -/
theorem run_driven (source : String) (operations later : List Operation)
    (hdriving : ∀ operation ∈ operations, operation.isDriving = true)
    (hlater : ∀ operation ∈ later, operation.isDriving = true ∨ operation = .finish) :
    let finished := (ofSource source).run (operations ++ [.finish])
    let steps := (ofSource source).steps (operations ++ .finish :: later)
    finished.tokens = (scan source).tokens ∧
      finished.diagnostics = (scan source).diagnostics ∧
      (∀ made ∈ finished.steps later,
        made.after.tokens = (scan source).tokens ∧
          made.after.diagnostics = (scan source).diagnostics) ∧
      (∀ made ∈ steps, made.operation = .finish → made.answer = .tokens (scan source).tokens) ∧
      steps.countP Step.isPass ≤ source.toList.length := by
  intro finished steps
  obtain ⟨hcompletes, hdone⟩ := completes_run source hdriving
  have hfinished : finished = ((ofSource source).run operations).finish := run_append _ _ _
  have hspent : Spent source finished := hfinished ▸ hcompletes.finish hdone
  have hafter := hspent.run hlater
  refine ⟨hspent.tokens_eq, hspent.diagnostics_eq, ?_, ?_, ?_⟩
  · intro made hmade
    exact ⟨(hafter made hmade).2.tokens_eq, (hafter made hmade).2.diagnostics_eq⟩
  · -- the answers are given by the first run to the end and by those that come after it
    have hsteps : steps = (ofSource source).steps operations ++
        ((ofSource source).run operations).step .finish :: finished.steps later := by
      rw [hfinished]
      exact steps_append _ _ _
    intro made hmade hfinish
    rw [hsteps, List.mem_append, List.mem_cons] at hmade
    rcases hmade with hmade | rfl | hmade
    · have hkind := hdriving made.operation (eq_step_of_mem_steps hmade).1
      rw [hfinish] at hkind
      cases hkind
    · change Answer.tokens ((ofSource source).run operations).finish.tokens = _
      rw [← hfinished, hspent.tokens_eq]
    · have hbefore := (hafter made hmade).1
      rw [(eq_step_of_mem_steps hmade).2, hfinish]
      change Answer.tokens made.before.finish.tokens = _
      rw [hbefore.finish_eq, hbefore.tokens_eq]
  · have bound := countP_isPass_steps_le (ofSource source) (operations ++ .finish :: later)
    exact (Nat.le_of_add_right_le bound).trans
      (within_run source (operations ++ .finish :: later)).1.current_le

/-- A string without an end, driven to the end of the text and beyond it. -/
theorem run_driven_open_string :
    let operations : List Operation := [.peek, .pass, .mark, .pass, .peekNext, .pass, .pass]
    let later : List Operation := [.finish, .pass, .atEnd, .finish]
    let finished := (ofSource "a \"b").run (operations ++ [.finish])
    (∀ operation ∈ operations, operation.isDriving = true) ∧
      (∀ operation ∈ later, operation.isDriving = true ∨ operation = .finish) ∧
      finished.tokens = (scan "a \"b").tokens ∧
      finished.diagnostics = [⟨1, "Unterminated string."⟩] := by
  intro operations later finished
  have hdriving : ∀ operation ∈ operations, operation.isDriving = true := by decide
  have hlater : ∀ operation ∈ later, operation.isDriving = true ∨ operation = .finish := by
    simp [later, Operation.isDriving]
  obtain ⟨htokens, hreports, -⟩ := run_driven "a \"b" operations later hdriving hlater
  refine ⟨hdriving, hlater, htokens, ?_⟩
  rw [hreports]
  decide +kernel

end Cursor

end Lox
