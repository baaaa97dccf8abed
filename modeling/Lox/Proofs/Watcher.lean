import Lox.Collector
import Lox.Proofs.Passes

/-!
# Watching for faults

The faults of a text can be told by an automaton with four states that reads one character at a
time, never looks ahead and knows nothing of tokens.  Scanning skips whole lexemes and looks up to
two characters ahead, but between two passes the automaton stands in a state that does with the next
character what its first state does.  So both make the same reports.

Main results:

- Theorem `Watcher.Rests.next_eq`: a state that rests does with the next character what code does.
- Theorem `Segment.reports_eq`: over the text of a segment the automaton makes the report on it.
- Theorem `Cursor.Watched.pass?`: every pass makes the reports of the automaton.
- Theorem `Cursor.diagnostics_eq_watch`: a scan makes the reports of the automaton.
-/

namespace Lox

/-! ## The automaton -/

/-- A state of the automaton: in code, behind a slash, in a comment or in a string. -/
inductive Watcher where
  | code
  | slash
  | comment
  | string
  deriving DecidableEq

namespace Watcher

/-- The characters that may stand in code. -/
def isKnown (c : Char) : Bool :=
  [' ', '\r', '\t', '\n', '"', '/', '(', ')', '{', '}', ',', '.', '-', '+', ';', '*', '!', '=', '<',
    '>', '_'].contains c || c.isDigit || c.isAlpha

/-- The characters that code stays in code on without a report. -/
def isPlain (c : Char) : Bool :=
  isKnown c && c != '"' && c != '/'

/-- The state that code goes to on a character. -/
def nextOfCode (c : Char) : Watcher :=
  if c = '"' then string
  else if c = '/' then slash
  else code

/-- The state that a state goes to on a character. -/
def next : Watcher → Char → Watcher
  | code, c => nextOfCode c
  | slash, c => if c = '/' then comment else nextOfCode c
  | comment, c => if c = '\n' then code else comment
  | string, c => if c = '"' then code else string

/-- A state reads a character as code. -/
def readsCode : Watcher → Char → Bool
  | code, _ => true
  | slash, c => c != '/'
  | comment, _ => false
  | string, _ => false

/-- The report of a state on a character behind a text, if it makes one. -/
def report? (state : Watcher) (before : List Char) (c : Char) : Option Diagnostic :=
  if state.readsCode c && !isKnown c then
    some ⟨((1 + newlines before : Nat) : Int), "Unexpected character."⟩
  else none

/-- The state behind a text. -/
def after (state : Watcher) (text : List Char) : Watcher :=
  text.foldl next state

/-- The reports on the characters of a text that stands behind another. -/
def reports (state : Watcher) (before : List Char) : List Char → List Diagnostic
  | [] => []
  | c :: rest =>
      (state.report? before c).toList ++ (state.next c).reports (before ++ [c]) rest

/-- The report on a text that ends in a state, if there is one. -/
def ending? (state : Watcher) (text : List Char) : Option Diagnostic :=
  match state with
  | string => some ⟨((1 + newlines text : Nat) : Int), "Unterminated string."⟩
  | _ => none

/-- All reports of the automaton on a text. -/
def watch (text : List Char) : List Diagnostic :=
  code.reports [] text ++ ((code.after text).ending? text).toList

/-! ## Texts in parts -/

variable (state : Watcher) (before front back : List Char) (c : Char)

@[simp] theorem after_nil : state.after [] = state := rfl

@[simp] theorem after_cons : state.after (c :: back) = (state.next c).after back := rfl

theorem reports_nil : state.reports before [] = [] := rfl

theorem reports_cons :
    state.reports before (c :: back) =
      (state.report? before c).toList ++ (state.next c).reports (before ++ [c]) back := rfl

/-- The state behind two texts. -/
theorem after_append : state.after (front ++ back) = (state.after front).after back :=
  List.foldl_append

/-- The reports on two texts, one behind the other. -/
theorem reports_append :
    state.reports before (front ++ back) =
      state.reports before front ++ (state.after front).reports (before ++ front) back := by
  induction front generalizing state before with
  | nil => simp [reports_nil]
  | cons c front ih =>
      rw [List.cons_append, reports_cons, reports_cons, ih, List.append_assoc, List.append_assoc]
      rfl

/-- Every report on a character is that it is unexpected. -/
theorem message_of_mem_reports {state : Watcher} {before text : List Char} {report : Diagnostic}
    (h : report ∈ state.reports before text) : report.message = "Unexpected character." := by
  induction text generalizing state before with
  | nil => cases h
  | cons c rest ih =>
      rw [reports_cons, List.mem_append, Option.mem_toList] at h
      rcases h with h | h
      · unfold report? at h
        split at h
        · cases h
          rfl
        · cases h
      · exact ih h

/-! ## Texts that a state goes over without a report -/

variable {state before}

/-- A state that stays where it is on every character of a text makes no report on it. -/
theorem stays {text : List Char} (before : List Char)
    (h : ∀ c ∈ text, state.next c = state ∧ (state.readsCode c = true → isKnown c = true)) :
    state.after text = state ∧ state.reports before text = [] := by
  induction text generalizing before with
  | nil => exact ⟨rfl, rfl⟩
  | cons c rest ih =>
      rcases h c List.mem_cons_self with ⟨hstays, hknown⟩
      have hrest := ih (before ++ [c]) fun d hd => h d (List.mem_cons_of_mem c hd)
      have silent : state.report? before c = none := by
        unfold report?
        rw [if_neg]
        intro hfault
        simp only [Bool.and_eq_true, Bool.not_eq_true'] at hfault
        rw [hknown hfault.1] at hfault
        cases hfault.2
      rw [after_cons, reports_cons, hstays, silent]
      exact hrest

/-- Nothing in a comment is reported. -/
theorem stays_comment {body : List Char} (before : List Char) (h : '\n' ∉ body) :
    comment.after body = comment ∧ comment.reports before body = [] := by
  apply stays
  intro c hc
  refine ⟨if_neg (ne_of_mem_of_not_mem hc h), ?_⟩
  intro hcode
  cases hcode

/-- Nothing in a string is reported. -/
theorem stays_string {body : List Char} (before : List Char) (h : '"' ∉ body) :
    string.after body = string ∧ string.reports before body = [] := by
  apply stays
  intro c hc
  refine ⟨if_neg (ne_of_mem_of_not_mem hc h), ?_⟩
  intro hcode
  cases hcode

/-- Nothing in code is reported that is plain. -/
theorem stays_code {text : List Char} (before : List Char) (h : ∀ c ∈ text, isPlain c = true) :
    code.after text = code ∧ code.reports before text = [] := by
  apply stays
  intro c hc
  have hplain := h c hc
  simp only [isPlain, Bool.and_eq_true, bne_iff_ne] at hplain
  rcases hplain with ⟨⟨hknown, hquote⟩, hslash⟩
  constructor
  · rw [next, nextOfCode, if_neg hquote, if_neg hslash]
  · exact fun _ => hknown

/-- A character of a word or a number is plain. -/
theorem isPlain_of_isWordPart {c : Char} (h : isWordPart c = true) : isPlain c = true := by
  have hquote : c ≠ '"' := by
    rintro rfl
    cases h
  have hslash : c ≠ '/' := by
    rintro rfl
    cases h
  have hknown : isKnown c = true := by
    simp only [isWordPart, isWordStart, Bool.or_eq_true, beq_iff_eq] at h
    rcases h with (halpha | rfl) | hdigit
    · simp [isKnown, halpha]
    · decide
    · simp [isKnown, hdigit]
  simp [isPlain, hknown, hquote, hslash]

/-! ## States between two passes -/

/-- A state rests in front of a text if it is not in the middle of anything that the text goes on
with. -/
def Rests : Watcher → List Char → Prop
  | code, _ => True
  | slash, rest => rest.head? ≠ some '/'
  | comment, rest => ∀ c ∈ rest.head?, c = '\n'
  | string, rest => rest = []

/-- A state that rests does with the next character what code does. -/
theorem Rests.next_eq {c : Char} {rest : List Char} (h : state.Rests (c :: rest))
    (before : List Char) :
    state.next c = code.next c ∧ state.report? before c = code.report? before c := by
  cases state with
  | code => exact ⟨rfl, rfl⟩
  | slash =>
      have hslash : c ≠ '/' := by simpa [Rests] using h
      refine ⟨if_neg hslash, ?_⟩
      simp [report?, readsCode, hslash]
  | comment =>
      obtain rfl : c = '\n' := h c rfl
      exact ⟨rfl, rfl⟩
  | string => cases h

/-- A state that rests does with the text in front what code does, if there is any. -/
theorem Rests.eq_code {text behind : List Char} (h : state.Rests (text ++ behind)) (hne : text ≠ [])
    (before : List Char) :
    state.after text = code.after text ∧ state.reports before text = code.reports before text := by
  rcases List.exists_cons_of_ne_nil hne with ⟨c, rest, rfl⟩
  rcases h.next_eq before with ⟨hnext, hreport⟩
  rw [after_cons, after_cons, reports_cons, reports_cons, hnext, hreport]
  exact ⟨rfl, rfl⟩

/-- A state that rests in front of some text has nothing to report if the text ends here. -/
theorem Rests.ending?_eq_none {behind : List Char} (h : state.Rests behind) (hne : behind ≠ [])
    (text : List Char) : state.ending? text = none := by
  cases state with
  | string => exact absurd h hne
  | _ => rfl

end Watcher

/-! ## One segment -/

open Watcher

namespace Segment

variable {part : Segment} {behind : List Char}

/-- Nothing that starts a segment of its own is unknown. -/
theorem isKnown_of_isUnexpected {c : Char} (h : IsUnexpected c) : isKnown c = false := by
  rcases h with ⟨hop, hblank, hnewline, hquote, hdigit, hword⟩
  have hstart : c ∉ Operator.starts := by
    intro hstart
    have found := (Operator.ofChar?_isSome_iff c).2 hstart
    simp [hop] at found
  simp only [Operator.starts, List.mem_cons, List.not_mem_nil, or_false, not_or] at hstart
  simp only [isSeparator, Bool.or_eq_false_iff, beq_eq_false_iff_ne] at hblank
  simp only [isWordStart, Bool.or_eq_false_iff, beq_eq_false_iff_ne] at hword
  simp [isKnown, hstart, hblank, hnewline, hquote, hdigit, hword]

private theorem reports_eq_of_plain (before : List Char)
    (hnone : part.report? ((1 + newlines before : Nat) : Int) = none)
    (hplain : part.text.all isPlain = true) :
    (code.after part.text).Rests behind ∧
      code.reports before part.text ++
          ((code.after part.text).ending? (before ++ part.text)).toList =
        (part.report? ((1 + newlines before : Nat) : Int)).toList := by
  rcases stays_code before (List.all_eq_true.1 hplain) with ⟨hafter, hreports⟩
  rw [hafter, hreports, hnone]
  exact ⟨trivial, rfl⟩

/-- From code the automaton makes the report on a segment and rests behind it. -/
theorem reports_eq (hwf : part.WellFormed) (hstop : part.Stops behind) (before : List Char) :
    (code.after part.text).Rests behind ∧
      code.reports before part.text ++
          ((code.after part.text).ending? (before ++ part.text)).toList =
        (part.report? ((1 + newlines before : Nat) : Int)).toList := by
  cases part with
  | operator op =>
      by_cases hslash : op = .slash
      · subst hslash
        exact ⟨hstop.1 rfl, rfl⟩
      · apply reports_eq_of_plain before rfl
        cases op <;> first | decide | contradiction
  | blank c =>
      apply reports_eq_of_plain before rfl
      simp only [WellFormed, isSeparator, Bool.or_eq_true, beq_iff_eq] at hwf
      rcases hwf with (rfl | rfl) | rfl <;> decide
  | newline =>
      apply reports_eq_of_plain before rfl
      decide
  | comment body =>
      rcases stays_comment (before ++ ['/'] ++ ['/']) hwf with ⟨hafter, hreports⟩
      have opened : code.after (comment body).text = Watcher.comment.after body := rfl
      have silent : code.reports before (comment body).text =
          Watcher.comment.reports (before ++ ['/'] ++ ['/']) body := rfl
      rw [opened, silent, hafter, hreports]
      exact ⟨hstop, rfl⟩
  | string body =>
      rcases stays_string (before ++ ['"']) hwf with ⟨hafter, hreports⟩
      have opened : code.after (string body).text = Watcher.string.after (body ++ ['"']) := rfl
      have silent : code.reports before (string body).text =
          Watcher.string.reports (before ++ ['"']) (body ++ ['"']) := rfl
      rw [opened, silent, after_append, reports_append, hafter, hreports]
      exact ⟨trivial, rfl⟩
  | number whole fraction =>
      apply reports_eq_of_plain before rfl
      have digits {run : List Char} (hrun : IsDigits run) : run.all isPlain = true := by
        rw [List.all_eq_true]
        intro c hc
        apply isPlain_of_isWordPart
        simp [isWordPart, hrun.2 c hc]
      cases fraction with
      | none => exact digits hwf.1
      | some places =>
          have point : isPlain '.' = true := by decide
          rw [text, List.all_append, List.all_cons, digits hwf.1, point, digits (hwf.2 places rfl)]
          rfl
  | word word =>
      apply reports_eq_of_plain before rfl
      rcases hwf with ⟨d, more, rfl, hstart, hmore⟩
      rw [List.all_eq_true]
      intro c hc
      apply isPlain_of_isWordPart
      rcases List.mem_cons.1 hc with rfl | hc
      · simp [isWordPart, hstart]
      · exact hmore c hc
  | unterminated body =>
      obtain rfl : behind = [] := hstop
      rcases stays_string (before ++ ['"']) hwf with ⟨hafter, hreports⟩
      have opened : code.after (unterminated body).text = Watcher.string.after body := rfl
      have silent : code.reports before (unterminated body).text =
          Watcher.string.reports (before ++ ['"']) body := rfl
      rw [opened, silent, hafter, hreports]
      refine ⟨rfl, ?_⟩
      have lines : newlines (before ++ '"' :: body) = newlines before + newlines body := by
        rw [newlines_append]
        simp [newlines]
      simp only [text, ending?, lines, Segment.report?, Diagnostic.ofError, LexicalError.message]
      simp [Int.add_assoc]
  | unexpected c =>
      have hquote : c ≠ '"' := hwf.2.2.2.1
      have hslash : c ≠ '/' := by
        rintro rfl
        cases hwf.1
      have stays : code.after (unexpected c).text = code := by
        rw [text, after_cons, after_nil, next, nextOfCode, if_neg hquote, if_neg hslash]
      have fault : code.report? before c =
          some ⟨((1 + newlines before : Nat) : Int), "Unexpected character."⟩ := by
        simp [Watcher.report?, readsCode, isKnown_of_isUnexpected hwf]
      rw [stays, text, reports_cons, fault]
      exact ⟨trivial, rfl⟩

end Segment

/-! ## Passes -/

namespace Cursor

/-- A cursor has made the reports of the automaton on all it has read, which rests in front of what
is left. -/
structure Watched (text : List Char) (c : Cursor) : Prop where
  diagnostics_eq : c.diagnostics = watch (text.take c.current)
  rests : (code.after (text.take c.current)).Rests c.ahead

/-- A cursor in front of a text is watched. -/
theorem watched_ofSource (source : String) : Watched source.toList (ofSource source) where
  diagnostics_eq := rfl
  rests := trivial

/-- Every pass makes the reports of the automaton. -/
theorem Watched.pass? {text : List Char} {c next : Cursor} (h : Watched text c)
    (hc : InStep text c) (hpass : c.pass? = some next) : Watched text next := by
  rcases exists_part_of_pass? hpass with ⟨part, hwf, hstop, rfl, hahead⟩
  have hrests := h.rests
  rw [hahead] at hrests
  have hne : part.text ++ (c.found part).ahead ≠ [] := by
    simp [Segment.text_ne_nil hwf]
  -- the state between the passes goes over the segment as code does
  rcases hrests.eq_code (Segment.text_ne_nil hwf) (text.take c.current) with ⟨hafter, hreports⟩
  rcases Segment.reports_eq hwf hstop (text.take c.current) with ⟨hbehind, hsegment⟩
  refine { diagnostics_eq := ?_, rests := ?_ }
  · rw [diagnostics_found, h.diagnostics_eq, hc.take_found hahead, hc.line_eq, ← hsegment, watch,
      watch, reports_append, after_append, hrests.ending?_eq_none hne, List.nil_append, hafter,
      hreports]
    simp
  · rw [hc.take_found hahead, after_append, hafter]
    exact hbehind

/-- A run ends with the reports of the automaton. -/
theorem Watched.last {text : List Char} {c : Cursor} (h : Watched text c) (hc : InStep text c) :
    Watched text c.last := by
  induction c using passes.induct with
  | case1 c hpass =>
      rw [last_of_none hpass]
      exact h
  | case2 c next hpass _ ih =>
      rw [last_of_some hpass]
      exact ih (h.pass? hc hpass) (hc.pass? hpass)

/-- A scan makes the reports of the automaton, in order.  All of them are on unexpected characters
but the one on a string without an end, which is made last and only if the text ends in a string.  A
collector of the reports has no error exactly if the automaton makes none. -/
theorem diagnostics_eq_watch (source : String) :
    (ofSource source).finish.diagnostics = watch source.toList ∧
      (scan source).diagnostics = watch source.toList ∧
      (∃ front, watch source.toList =
          front ++ ((code.after source.toList).ending? source.toList).toList ∧
        ∀ report ∈ front, report.message = "Unexpected character.") ∧
      ∀ echo : Echo,
        ((Collector.ofEcho echo).collect (scan source).diagnostics).1.diagnostics =
            watch source.toList ∧
          (((Collector.ofEcho echo).collect (scan source).diagnostics).1.hadError = false ↔
            watch source.toList = []) := by
  have hstart := inStep_ofSource source
  rcases hstart.last with ⟨-, hend⟩
  have hwatched := ((watched_ofSource source).last hstart).diagnostics_eq
  rw [hend, List.take_length, ← diagnostics_finish rfl] at hwatched
  have hscan : (scan source).diagnostics = watch source.toList := by
    rw [scan_eq_finish, hwatched]
  refine ⟨hwatched, hscan, ⟨_, rfl, ?_⟩, ?_⟩
  · intro report hreport
    exact message_of_mem_reports hreport
  · intro echo
    rw [Collector.hadError_eq_false_iff, Collector.diagnostics_collect, hscan]
    exact ⟨rfl, Iff.rfl⟩

end Cursor

end Lox
