import Lox.Segment
import Mathlib.Data.List.TakeWhile

/-!
# What makes a segment

Cutting finds one way to divide a text.  This module says without cutting which way that is: a
segment has the shape of its kind, and it stops where the text behind it no longer goes on with it.
Two characters behind a segment decide whether it stops.

Main results:

- Theorem `Segment.cut_eq_iff`: a segment is the one cut off a text exactly if it has the shape of
  its kind and stops before the rest.
- Theorem `segments_eq_iff`: a list of segments is the segments of a text exactly if it spells the
  text and every segment in it is well formed and stops before the ones behind it.
-/

namespace Lox

/-! ## Operators by their spelling -/

namespace Operator

/-- An operator is found by the one character that spells it. -/
theorem ofChar?_of_text {op : Operator} {c : Char} (h : op.text = [c]) : ofChar? c = some op := by
  cases op <;> cases h <;> rfl

/-- An operator is spelled by one character, or by another operator and an equals sign. -/
theorem text_cases (op : Operator) :
    (∃ c, op.text = [c]) ∨
      ∃ (base : Operator) (c : Char), base.text = [c] ∧ base.withEqual? = some op := by
  cases op with
  | bangEqual => exact Or.inr ⟨bang, '!', rfl, rfl⟩
  | equalEqual => exact Or.inr ⟨equal, '=', rfl, rfl⟩
  | greaterEqual => exact Or.inr ⟨greater, '>', rfl, rfl⟩
  | lessEqual => exact Or.inr ⟨less, '<', rfl, rfl⟩
  | _ => exact Or.inl ⟨_, rfl⟩

/-- No equals sign widens an operator twice. -/
theorem withEqual?_of_withEqual? {op wide : Operator} (h : op.withEqual? = some wide) :
    wide.withEqual? = none := by
  cases op <;> cases h <;> rfl

/-- An operator that an equals sign widens is no slash. -/
theorem ne_slash_of_withEqual? {op wide : Operator} (h : op.withEqual? = some wide) :
    op ≠ slash ∧ wide ≠ slash := by
  cases op <;> cases h <;> decide

/-- The operators that an equals sign widens, by their spelling. -/
theorem text_of_isSome_withEqual? {op : Operator} (h : op.withEqual?.isSome = true) :
    op.text = ['!'] ∨ op.text = ['='] ∨ op.text = ['<'] ∨ op.text = ['>'] := by
  revert h
  cases op <;> decide

/-- Only the slash is spelled by a slash. -/
theorem ofChar?_slash : ofChar? '/' = some slash := rfl

end Operator

namespace Segment

/-! ## Shapes -/

/-- A run of at least one digit. -/
def IsDigits (text : List Char) : Prop :=
  text ≠ [] ∧ ∀ d ∈ text, d.isDigit = true

/-- A word: a character that starts one and characters that go on one. -/
def IsWord (text : List Char) : Prop :=
  ∃ c rest, text = c :: rest ∧ isWordStart c = true ∧ ∀ d ∈ rest, isWordPart d = true

/-- A character that starts nothing. -/
def IsUnexpected (c : Char) : Prop :=
  Operator.ofChar? c = none ∧ isSeparator c = false ∧ c ≠ '\n' ∧ c ≠ '"' ∧ c.isDigit = false ∧
    isWordStart c = false

/-- A segment with the shape of its kind. -/
def WellFormed : Segment → Prop
  | operator _ => True
  | blank c => isSeparator c = true
  | newline => True
  | comment body => '\n' ∉ body
  | string body => '"' ∉ body
  | number whole fraction => IsDigits whole ∧ ∀ places ∈ fraction, IsDigits places
  | word text => IsWord text
  | unterminated body => '"' ∉ body
  | unexpected c => IsUnexpected c

/-- A segment ends before the given text, since the text does not go on with it. -/
def Stops : Segment → List Char → Prop
  | operator op, rest =>
      (op = .slash → rest.head? ≠ some '/') ∧ (op.withEqual?.isSome → rest.head? ≠ some '=')
  | comment _, rest => ∀ c ∈ rest.head?, c = '\n'
  | number _ none, rest =>
      (∀ c ∈ rest.head?, c.isDigit = false) ∧ ∀ d back, rest = '.' :: d :: back → d.isDigit = false
  | number _ (some _), rest => ∀ c ∈ rest.head?, c.isDigit = false
  | word _, rest => ∀ c ∈ rest.head?, isWordPart c = false
  | unterminated _, rest => rest = []
  | _, _ => True

/-! ## Runs of characters -/

/-- The text behind a run does not go on with it. -/
theorem head?_dropWhile_false (p : Char → Bool) (text : List Char) :
    ∀ c ∈ (text.dropWhile p).head?, p c = false := by
  intro c hc
  have stop := List.head?_dropWhile_not p text
  rw [Option.mem_def.1 hc] at stop
  exact stop

/-! ## Classes of characters -/

/-- A character of a class without any start of an operator spells no operator. -/
private theorem ofChar?_eq_none {p : Char → Bool} {c : Char}
    (hp : Operator.starts.all (fun d => !p d) = true) (hc : p c = true) :
    Operator.ofChar? c = none := by
  rw [← Option.not_isSome_iff_eq_none, Operator.ofChar?_isSome_iff]
  intro hstart
  have apart := List.all_eq_true.1 hp c hstart
  simp [hc] at apart

/-- A separator is cut off by itself. -/
theorem cut_of_isSeparator {c : Char} (h : isSeparator c = true) (rest : List Char) :
    cut c rest = (blank c, rest) := by
  have hop : Operator.ofChar? c = none := ofChar?_eq_none (by decide) h
  rw [cut_of_no_operator hop, if_pos h]

private theorem cut_of_isWordPart {c : Char} (h : isWordPart c = true) (rest : List Char) :
    cut c rest =
      if c.isDigit then cutNumber c rest
      else if isWordStart c then
        (word (c :: rest.takeWhile isWordPart), rest.dropWhile isWordPart)
      else (unexpected c, rest) := by
  have hop : Operator.ofChar? c = none := ofChar?_eq_none (by decide) h
  have hblank : ¬isSeparator c = true := by
    intro hblank
    simp only [isSeparator, Bool.or_eq_true, beq_iff_eq] at hblank
    rcases hblank with (rfl | rfl) | rfl <;> cases h
  have hnewline : c ≠ '\n' := by
    rintro rfl
    cases h
  have hquote : c ≠ '"' := by
    rintro rfl
    cases h
  rw [cut_of_no_operator hop, if_neg hblank, if_neg hnewline, if_neg hquote]

/-- A digit starts a number. -/
theorem cut_of_isDigit {c : Char} (h : c.isDigit = true) (rest : List Char) :
    cut c rest = cutNumber c rest := by
  rw [cut_of_isWordPart (by simp [isWordPart, h]), if_pos h]

/-- The start of a word is no digit. -/
theorem isDigit_of_isWordStart {c : Char} (h : isWordStart c = true) : c.isDigit = false := by
  by_cases hlow : c = '_'
  · subst hlow
    rfl
  · have halpha : c.isAlpha = true := by simpa [isWordStart, hlow] using h
    exact Numeral.isDigit_eq_false_of_isAlpha halpha

/-- A letter or an underscore starts a word. -/
theorem cut_of_isWordStart {c : Char} (h : isWordStart c = true) (rest : List Char) :
    cut c rest = (word (c :: rest.takeWhile isWordPart), rest.dropWhile isWordPart) := by
  have hdigit : ¬c.isDigit = true := by simp [isDigit_of_isWordStart h]
  rw [cut_of_isWordPart (by simp [isWordPart, h]), if_neg hdigit, if_pos h]

/-- A quote starts a string. -/
theorem cut_quote (rest : List Char) : cut '"' rest = cutString rest := by
  have hblank : ¬isSeparator '"' = true := by decide
  rw [cut_of_no_operator rfl, if_neg hblank, if_neg (by decide), if_pos rfl]

/-! ## Cutting off a segment that stops -/

private theorem cut_operator {op : Operator} {c : Char} {rest behind : List Char}
    (hstop : (operator op).Stops behind) (h : op.text ++ behind = c :: rest) :
    cut c rest = (operator op, behind) := by
  rcases hstop with ⟨hslash, hequal⟩
  rcases op.text_cases with ⟨d, hop⟩ | ⟨base, d, hbase, hwide⟩
  · obtain ⟨rfl, rfl⟩ : d = c ∧ behind = rest := by simpa [hop] using h
    have hcomment : ¬(d = '/' ∧ behind.head? = some '/') := by
      rintro ⟨rfl, hnext⟩
      cases (Operator.ofChar?_of_text hop).symm.trans Operator.ofChar?_slash
      exact hslash rfl hnext
    rw [cut_of_operator (Operator.ofChar?_of_text hop) hcomment]
    unfold cutOperator
    split
    · next wide back hwide => simp [hwide] at hequal
    · rfl
  · obtain ⟨rfl, rfl⟩ : d = c ∧ '=' :: behind = rest := by
      simpa [Operator.text_of_withEqual? hwide, hbase] using h
    have hcomment : ¬(d = '/' ∧ ('=' :: behind).head? = some '/') := by simp
    simp [cut_of_operator (Operator.ofChar?_of_text hbase) hcomment, cutOperator, hwide]

private theorem cut_string {body behind : List Char} (hbody : '"' ∉ body) :
    cut '"' (body ++ '"' :: behind) = (string body, behind) := by
  have inside : ∀ c ∈ body, (c != '"') = true := by
    intro c hc
    simpa using ne_of_mem_of_not_mem hc hbody
  have stop : ∀ c ∈ ('"' :: behind).head?, (c != '"') = false := by simp
  simp [cut_quote, cutString, span_eq inside stop]

private theorem cut_number {c : Char} {whole behind : List Char} {fraction : Option (List Char)}
    (hwf : (number (c :: whole) fraction).WellFormed)
    (hstop : (number (c :: whole) fraction).Stops behind) :
    ∃ rest, (number (c :: whole) fraction).text ++ behind = c :: rest ∧
      cutNumber c rest = (number (c :: whole) fraction, behind) := by
  rcases hwf with ⟨⟨-, hwhole⟩, hfraction⟩
  have inside : ∀ d ∈ whole, d.isDigit = true := fun d hd => hwhole d (List.mem_cons_of_mem c hd)
  cases fraction with
  | none =>
      rcases hstop with ⟨hdigit, hpoint⟩
      refine ⟨whole ++ behind, rfl, ?_⟩
      rcases span_eq inside hdigit with ⟨taken, left⟩
      rw [cutNumber_of_no_point, taken, left]
      rintro ⟨d, back, hback, hd⟩
      rw [left] at hback
      simp [hpoint d back hback] at hd
  | some places =>
      rcases hfraction places rfl with ⟨hne, hplaces⟩
      rcases List.exists_cons_of_ne_nil hne with ⟨d, more, rfl⟩
      refine ⟨whole ++ '.' :: d :: (more ++ behind), by simp [text], ?_⟩
      have point : ∀ e ∈ ('.' :: d :: (more ++ behind)).head?, e.isDigit = false := by
        simp [show ('.').isDigit = false from rfl]
      rcases span_eq inside point with ⟨taken, left⟩
      obtain ⟨takenMore, leftMore⟩ :=
        span_eq (fun e he => hplaces e (List.mem_cons_of_mem d he)) hstop
      rw [cutNumber_of_point left (hplaces d List.mem_cons_self), taken, takenMore, leftMore]

/-- A well-formed segment that stops before the rest of a text is the one cut off the text. -/
theorem cut_of_stops {part : Segment} {c : Char} {rest behind : List Char}
    (hwf : part.WellFormed) (hstop : part.Stops behind) (h : part.text ++ behind = c :: rest) :
    cut c rest = (part, behind) := by
  cases part with
  | operator op => exact cut_operator hstop h
  | blank d =>
      obtain ⟨rfl, rfl⟩ : d = c ∧ behind = rest := by simpa [text] using h
      exact cut_of_isSeparator hwf _
  | newline =>
      obtain ⟨rfl, rfl⟩ : '\n' = c ∧ behind = rest := by simpa [text] using h
      rfl
  | comment body =>
      obtain ⟨rfl, rfl⟩ : '/' = c ∧ '/' :: (body ++ behind) = rest := by simpa [text] using h
      have inside : ∀ d ∈ body, (d != '\n') = true := by
        intro d hd
        simpa using ne_of_mem_of_not_mem hd hwf
      have stop : ∀ d ∈ behind.head?, (d != '\n') = false := by
        intro d hd
        simpa using hstop d hd
      rcases span_eq inside stop with ⟨taken, left⟩
      rw [cut_comment, taken, left]
  | string body =>
      obtain ⟨rfl, rfl⟩ : '"' = c ∧ body ++ '"' :: behind = rest := by simpa [text] using h
      exact cut_string hwf
  | number whole fraction =>
      rcases List.exists_cons_of_ne_nil hwf.1.1 with ⟨d, digits, rfl⟩
      rcases cut_number hwf hstop with ⟨back, hback, hcut⟩
      obtain ⟨rfl, rfl⟩ : d = c ∧ back = rest := by simpa [hback] using h
      rw [cut_of_isDigit (hwf.1.2 d List.mem_cons_self), hcut]
  | word word =>
      rcases hwf with ⟨d, more, rfl, hstart, hmore⟩
      obtain ⟨rfl, rfl⟩ : d = c ∧ more ++ behind = rest := by simpa [text] using h
      rcases span_eq hmore hstop with ⟨taken, left⟩
      rw [cut_of_isWordStart hstart, taken, left]
  | unterminated body =>
      obtain rfl : behind = [] := hstop
      obtain ⟨rfl, rfl⟩ : '"' = c ∧ body = rest := by simpa [text] using h
      have inside : ∀ d ∈ body, (d != '"') = true := by
        intro d hd
        simpa using ne_of_mem_of_not_mem hd hwf
      have stop : ∀ d ∈ ([] : List Char).head?, (d != '"') = false := by simp
      rcases span_eq inside stop with ⟨taken, left⟩
      rw [List.append_nil] at taken left
      simp [cut_quote, cutString, taken, left]
  | unexpected d =>
      obtain ⟨rfl, rfl⟩ : d = c ∧ behind = rest := by simpa [text] using h
      rcases hwf with ⟨hop, hblank, hnewline, hquote, hdigit, hword⟩
      simp [cut_of_no_operator hop, hblank, hnewline, hquote, hdigit, hword]

/-! ## What is cut off -/

private theorem cutOperator_valid {c : Char} {op : Operator} {rest : List Char}
    (hop : Operator.ofChar? c = some op) (hcomment : ¬(c = '/' ∧ rest.head? = some '/')) :
    (cutOperator op rest).1.WellFormed ∧ (cutOperator op rest).1.Stops (cutOperator op rest).2 := by
  unfold cutOperator
  split
  · next wide behind hwide =>
    refine ⟨trivial, fun hslash => ((Operator.ne_slash_of_withEqual? hwide).2 hslash).elim, ?_⟩
    simp [Operator.withEqual?_of_withEqual? hwide]
  · next hnarrow =>
    refine ⟨trivial, ?_, ?_⟩
    · rintro rfl hnext
      have spelled := Operator.text_of_ofChar? hop
      exact hcomment ⟨by simpa [Operator.text] using spelled.symm, hnext⟩
    · intro hwide hnext
      rcases Option.isSome_iff_exists.1 hwide with ⟨wide, hwide⟩
      rcases List.head?_eq_some_iff.1 hnext with ⟨behind, rfl⟩
      exact hnarrow wide behind hwide rfl

private theorem cutString_valid (rest : List Char) :
    (cutString rest).1.WellFormed ∧ (cutString rest).1.Stops (cutString rest).2 := by
  have body : '"' ∉ rest.takeWhile (· != '"') := by
    intro hquote
    simpa using List.mem_takeWhile_imp hquote
  unfold cutString
  split
  · exact ⟨body, rfl⟩
  · exact ⟨body, trivial⟩

private theorem isDigits_cons {c : Char} (hc : c.isDigit = true) (rest : List Char) :
    IsDigits (c :: rest.takeWhile Char.isDigit) := by
  refine ⟨List.cons_ne_nil _ _, ?_⟩
  intro d hd
  rcases List.mem_cons.1 hd with rfl | hd
  · exact hc
  · exact List.mem_takeWhile_imp hd

private theorem cutNumber_valid {c : Char} (hc : c.isDigit = true) (rest : List Char) :
    (cutNumber c rest).1.WellFormed ∧ (cutNumber c rest).1.Stops (cutNumber c rest).2 := by
  by_cases hpoint : ∃ d back, rest.dropWhile Char.isDigit = '.' :: d :: back ∧ d.isDigit = true
  · rcases hpoint with ⟨d, back, hdrop, hd⟩
    rw [cutNumber_of_point hdrop hd]
    refine ⟨⟨isDigits_cons hc rest, ?_⟩, head?_dropWhile_false _ back⟩
    rintro places ⟨rfl⟩
    exact isDigits_cons hd back
  · rw [cutNumber_of_no_point hpoint]
    refine ⟨⟨isDigits_cons hc rest, by simp⟩, head?_dropWhile_false _ rest, ?_⟩
    intro d back hdrop
    by_contra hd
    exact hpoint ⟨d, back, hdrop, by simpa using hd⟩

/-- What is cut off a text has the shape of its kind and stops before the rest. -/
theorem cut_valid (c : Char) (rest : List Char) :
    (cut c rest).1.WellFormed ∧ (cut c rest).1.Stops (cut c rest).2 := by
  by_cases hcomment : c = '/' ∧ rest.head? = some '/'
  · rcases hcomment with ⟨rfl, hnext⟩
    rcases List.head?_eq_some_iff.1 hnext with ⟨behind, rfl⟩
    rw [cut_comment]
    constructor
    · intro hnewline
      simpa using List.mem_takeWhile_imp hnewline
    · intro d hd
      simpa using head?_dropWhile_false _ behind d hd
  cases hop : Operator.ofChar? c with
  | some op =>
      rw [cut_of_operator hop hcomment]
      exact cutOperator_valid hop hcomment
  | none =>
      by_cases hblank : isSeparator c = true
      · rw [cut_of_isSeparator hblank]
        exact ⟨hblank, trivial⟩
      by_cases hnewline : c = '\n'
      · subst hnewline
        exact ⟨trivial, trivial⟩
      by_cases hquote : c = '"'
      · subst hquote
        rw [cut_quote]
        exact cutString_valid rest
      by_cases hdigit : c.isDigit = true
      · rw [cut_of_isDigit hdigit]
        exact cutNumber_valid hdigit rest
      by_cases hword : isWordStart c = true
      · rw [cut_of_isWordStart hword]
        refine ⟨⟨c, _, rfl, hword, ?_⟩, head?_dropWhile_false _ rest⟩
        intro d hd
        exact List.mem_takeWhile_imp hd
      · rw [cut_of_no_operator hop, if_neg hblank, if_neg hnewline, if_neg hquote, if_neg hdigit,
          if_neg hword]
        exact ⟨⟨hop, Bool.eq_false_iff.2 hblank, hnewline, hquote, Bool.eq_false_iff.2 hdigit,
          Bool.eq_false_iff.2 hword⟩, trivial⟩

/-- A segment is the one cut off a text exactly if it has the shape of its kind and stops before
the rest. -/
theorem cut_eq_iff {part : Segment} {c : Char} {rest behind : List Char} :
    cut c rest = (part, behind) ↔
      part.WellFormed ∧ part.Stops behind ∧ part.text ++ behind = c :: rest := by
  constructor
  · intro h
    have valid := cut_valid c rest
    have whole := text_cut c rest
    rw [h] at valid whole
    exact ⟨valid.1, valid.2, whole⟩
  · rintro ⟨hwf, hstop, whole⟩
    exact cut_of_stops hwf hstop whole

/-- A segment holds at least one character. -/
theorem text_ne_nil {part : Segment} (h : part.WellFormed) : part.text ≠ [] := by
  cases part with
  | operator op => cases op <;> exact List.cons_ne_nil _ _
  | number whole fraction =>
      cases fraction with
      | none => exact h.1.1
      | some places => simp [text]
  | word word =>
      rcases h with ⟨c, rest, rfl, -⟩
      exact List.cons_ne_nil _ _
  | _ => exact List.cons_ne_nil _ _

/-- A well-formed segment that stops is cut off in front of the other segments. -/
theorem segments_append {part : Segment} {behind : List Char} (hwf : part.WellFormed)
    (hstop : part.Stops behind) : segments (part.text ++ behind) = part :: segments behind := by
  rcases List.exists_cons_of_ne_nil (text_ne_nil hwf) with ⟨c, rest, hcons⟩
  have hcut : cut c (rest ++ behind) = (part, behind) :=
    cut_of_stops hwf hstop (by rw [hcons, List.cons_append])
  rw [hcons, List.cons_append, segments, hcut]

end Segment

/-! ## Whole texts -/

/-- Every segment is well formed and stops before the text of the ones behind it. -/
def Fits : List Segment → Prop
  | [] => True
  | part :: rest => part.WellFormed ∧ part.Stops (rest.flatMap Segment.text) ∧ Fits rest

/-- Segments that fit one another are well formed. -/
theorem Fits.wellFormed_of_mem {parts : List Segment} {part : Segment} (h : Fits parts)
    (hpart : part ∈ parts) : part.WellFormed := by
  induction parts with
  | nil => cases hpart
  | cons first rest ih =>
      rcases h with ⟨hwf, -, hrest⟩
      rcases List.mem_cons.1 hpart with rfl | hpart
      · exact hwf
      · exact ih hrest hpart

/-- The segments of a text fit one another. -/
theorem fits_segments (text : List Char) : Fits (segments text) := by
  fun_induction segments text with
  | case1 => trivial
  | case2 c rest ih =>
      rcases Segment.cut_valid c rest with ⟨hwf, hstop⟩
      refine ⟨hwf, ?_, ih⟩
      rw [text_segments]
      exact hstop

/-- Segments that fit one another are the segments of their text. -/
theorem segments_flatMap {parts : List Segment} (h : Fits parts) :
    segments (parts.flatMap Segment.text) = parts := by
  induction parts with
  | nil => simp [segments]
  | cons part rest ih =>
      rcases h with ⟨hwf, hstop, hrest⟩
      rw [List.flatMap_cons, Segment.segments_append hwf hstop, ih hrest]

/-- A list of segments is the segments of a text exactly if it spells the text and its segments fit
one another. -/
theorem segments_eq_iff {text : List Char} {parts : List Segment} :
    segments text = parts ↔ parts.flatMap Segment.text = text ∧ Fits parts := by
  constructor
  · rintro rfl
    exact ⟨text_segments text, fits_segments text⟩
  · rintro ⟨rfl, h⟩
    exact segments_flatMap h

end Lox
