import Lox.Proofs.Segmentation

/-!
# Lexical classes

The grammar of the language below the level of syntax, said by classes of texts: seven classes, each
a set of texts, and the rule that a text is divided by taking the longest text in a class off its
front again and again.  Nothing here looks at single characters ahead; that this rule is what
cutting does is the content of the module.

Main results:

- Theorem `inClass_iff`: the texts in a class are the texts of the well-formed segments of a kind.
- Theorem `Segment.length_le_of_cut`: no text in a class at the front of a text is longer than the
  segment cut off it.
- Theorem `Segment.isMunch_cut`: cutting takes the longest text in a class.
- Theorem `Segment.yields`: a segment stands for what its text says it does.
-/

namespace Lox

/-! ## Classes of texts -/

/-- The classes of texts that a text is divided into. -/
inductive LexicalClass where
  | operator
  | comment
  | blank
  | newline
  | string
  | number
  | word
  deriving DecidableEq

/-- A text lies in a class. -/
inductive InClass : LexicalClass → List Char → Prop
  | operator (op : Operator) : InClass .operator op.text
  | comment (body : List Char) (h : '\n' ∉ body) : InClass .comment ('/' :: '/' :: body)
  | blank (c : Char) (h : c = ' ' ∨ c = '\r' ∨ c = '\t') : InClass .blank [c]
  | newline : InClass .newline ['\n']
  | string (body : List Char) (h : '"' ∉ body) : InClass .string ('"' :: (body ++ ['"']))
  | whole (digits : List Char) (h : Segment.IsDigits digits) : InClass .number digits
  | decimal (whole places : List Char) (hwhole : Segment.IsDigits whole)
      (hplaces : Segment.IsDigits places) : InClass .number (whole ++ '.' :: places)
  | word (text : List Char) (h : Segment.IsWord text) : InClass .word text

/-- A text that lies in some class. -/
def IsLexical (text : List Char) : Prop :=
  ∃ kind, InClass kind text

/-- The front of a text that is taken off it: the longest text in a class.  If there is none, an
opening quote takes all, and any other character is taken by itself. -/
def IsMunch (text front : List Char) : Prop :=
  (IsLexical front ∧ front <+: text ∧
      ∀ other, IsLexical other → other <+: text → other.length ≤ front.length) ∨
    ((∀ other, IsLexical other → ¬other <+: text) ∧
      front = if text.head? = some '"' then text else text.take 1)

/-- What a piece of a text that starts on a line stands for: a token, nothing, or a report. -/
inductive Yields (line : Nat) : List Char → Option Token → Option Diagnostic → Prop
  | operator (op : Operator) :
      Yields line op.text (some ⟨.operator op, String.ofList op.text, none, line⟩) none
  | string (body : List Char) (h : '"' ∉ body) :
      Yields line ('"' :: (body ++ ['"']))
        (some ⟨.string, String.ofList ('"' :: (body ++ ['"'])), some (.text (String.ofList body)),
          line⟩) none
  | number (text : List Char) (value : Binary64) (h : InClass .number text)
      (hvalue : Binary64.ofText? text = some value) :
      Yields line text (some ⟨.number, String.ofList text, some (.number value), line⟩) none
  | keyword (word : Keyword) :
      Yields line word.text (some ⟨.keyword word, String.ofList word.text, none, line⟩) none
  | identifier (text : List Char) (h : InClass .word text)
      (hfree : ∀ word : Keyword, text ≠ word.text) :
      Yields line text (some ⟨.identifier, String.ofList text, none, line⟩) none
  | comment (text : List Char) (h : InClass .comment text) : Yields line text none none
  | blank (text : List Char) (h : InClass .blank text) : Yields line text none none
  | newline (text : List Char) (h : InClass .newline text) : Yields line text none none
  | unterminated (body : List Char) (h : '"' ∉ body) :
      Yields line ('"' :: body) none
        (some ⟨((line + newlines body : Nat) : Int), "Unterminated string."⟩)
  | unexpected (c : Char) (h : ¬IsLexical [c]) (hquote : c ≠ '"') :
      Yields line [c] none (some ⟨line, "Unexpected character."⟩)

namespace Segment

/-- The class of the text of a segment.  Faults are in no class. -/
def class? : Segment → Option LexicalClass
  | operator _ => some .operator
  | blank _ => some .blank
  | newline => some .newline
  | comment _ => some .comment
  | string _ => some .string
  | number _ _ => some .number
  | word _ => some .word
  | unterminated _ => none
  | unexpected _ => none

/-- The text of a segment lies in its class. -/
theorem inClass_text {part : Segment} {kind : LexicalClass} (hwf : part.WellFormed)
    (h : part.class? = some kind) : InClass kind part.text := by
  cases part <;> cases h
  case operator op => exact .operator op
  case blank c =>
    refine .blank c ?_
    simpa [WellFormed, isSeparator, or_assoc] using hwf
  case newline => exact .newline
  case comment body => exact .comment body hwf
  case string body => exact .string body hwf
  case number whole fraction =>
    cases fraction with
    | none => exact .whole whole hwf.1
    | some places => exact .decimal whole places hwf.1 (hwf.2 places rfl)
  case word word => exact .word word hwf

end Segment

/-- The texts in a class are the texts of the well-formed segments of a kind. -/
theorem inClass_iff {kind : LexicalClass} {text : List Char} :
    InClass kind text ↔
      ∃ part : Segment, part.WellFormed ∧ part.class? = some kind ∧ part.text = text := by
  constructor
  · intro h
    cases h with
    | operator op => exact ⟨.operator op, trivial, rfl, rfl⟩
    | comment body h => exact ⟨.comment body, h, rfl, rfl⟩
    | blank c h =>
        refine ⟨.blank c, ?_, rfl, rfl⟩
        simpa [Segment.WellFormed, Segment.isSeparator, or_assoc] using h
    | newline => exact ⟨.newline, trivial, rfl, rfl⟩
    | string body h => exact ⟨.string body, h, rfl, rfl⟩
    | whole digits h => exact ⟨.number text none, ⟨h, by simp⟩, rfl, rfl⟩
    | decimal whole places hwhole hplaces =>
        exact ⟨.number whole (some places), ⟨hwhole, by simpa using hplaces⟩, rfl, rfl⟩
    | word text h => exact ⟨.word text, h, rfl, rfl⟩
  · rintro ⟨part, hwf, hkind, rfl⟩
    exact Segment.inClass_text hwf hkind

/-- No class holds the empty text. -/
theorem InClass.ne_nil {kind : LexicalClass} {text : List Char} (h : InClass kind text) :
    text ≠ [] := by
  rcases inClass_iff.1 h with ⟨part, hwf, -, rfl⟩
  exact Segment.text_ne_nil hwf

namespace Segment

/-! ## The longest text in a class -/

private theorem length_le_of_operator {op : Operator} {c : Char} {rest behind : List Char}
    (h : op.text ++ behind = c :: rest) :
    (cut c rest).1.class?.isSome = true ∧ op.text.length ≤ (cut c rest).1.text.length := by
  rcases op.text_cases with ⟨d, hop⟩ | ⟨base, d, hbase, hwide⟩
  · obtain ⟨rfl, rfl⟩ : d = c ∧ behind = rest := by simpa [hop] using h
    have some_text := List.length_pos_iff.2 (text_ne_nil (cut_valid d behind).1)
    refine ⟨?_, by rw [hop]; exact some_text⟩
    by_cases hcomment : d = '/' ∧ behind.head? = some '/'
    · rw [cut, if_pos hcomment]
      rfl
    · rw [cut_of_operator (Operator.ofChar?_of_text hop) hcomment]
      unfold cutOperator
      split <;> rfl
  · -- an operator that ends in an equals sign goes on no further
    have hstop : (operator op).Stops behind :=
      ⟨fun hslash => ((Operator.ne_slash_of_withEqual? hwide).2 hslash).elim,
        by simp [Operator.withEqual?_of_withEqual? hwide]⟩
    have hwf : (operator op).WellFormed := trivial
    rw [cut_of_stops hwf hstop h]
    exact ⟨rfl, Nat.le_refl _⟩

private theorem length_le_of_whole {whole : List Char} {c : Char} {rest behind : List Char}
    (hwhole : IsDigits whole) (h : whole ++ behind = c :: rest) :
    (cut c rest).1.class?.isSome = true ∧ whole.length ≤ (cut c rest).1.text.length := by
  rcases List.exists_cons_of_ne_nil hwhole.1 with ⟨d, digits, rfl⟩
  obtain ⟨rfl, rfl⟩ : d = c ∧ digits ++ behind = rest := by simpa using h
  have inside : ∀ e ∈ digits, e.isDigit = true := fun e he =>
    hwhole.2 e (List.mem_cons_of_mem d he)
  rw [cut_of_isDigit (hwhole.2 d List.mem_cons_self)]
  by_cases hpoint : ∃ e back,
      (digits ++ behind).dropWhile Char.isDigit = '.' :: e :: back ∧ e.isDigit = true
  · rcases hpoint with ⟨e, back, hdrop, he⟩
    rw [cutNumber_of_point hdrop he, List.takeWhile_append_of_pos inside]
    refine ⟨rfl, ?_⟩
    simp only [text, List.length_append, List.length_cons]
    omega
  · rw [cutNumber_of_no_point hpoint, List.takeWhile_append_of_pos inside]
    refine ⟨rfl, ?_⟩
    simp only [text, List.length_append, List.length_cons]
    omega

/-- No text in a class at the front of a text is longer than the segment cut off it, and that
segment is in a class too. -/
theorem length_le_of_cut {part : Segment} {c : Char} {rest behind : List Char}
    (hwf : part.WellFormed) (hkind : part.class?.isSome = true)
    (h : part.text ++ behind = c :: rest) :
    (cut c rest).1.class?.isSome = true ∧ part.text.length ≤ (cut c rest).1.text.length := by
  -- whatever can go on goes on with a run of characters of its own
  have longer {longer : Segment} {left : List Char} (hlonger : longer.WellFormed)
      (hstop : longer.Stops left) (hclass : longer.class?.isSome = true)
      (hlength : part.text.length ≤ longer.text.length)
      (hsame : longer.text ++ left = part.text ++ behind) :
      (cut c rest).1.class?.isSome = true ∧ part.text.length ≤ (cut c rest).1.text.length := by
    rw [cut_of_stops hlonger hstop (hsame.trans h)]
    exact ⟨hclass, hlength⟩
  cases part with
  | operator op => exact length_le_of_operator h
  | blank d => exact longer hwf trivial rfl (Nat.le_refl _) rfl
  | newline => exact longer hwf trivial rfl (Nat.le_refl _) rfl
  | string body => exact longer hwf trivial rfl (Nat.le_refl _) rfl
  | comment body =>
      refine @longer (.comment (body ++ behind.takeWhile (· != '\n')))
        (behind.dropWhile (· != '\n')) ?_ ?_ rfl ?_ ?_
      · intro hnewline
        rcases List.mem_append.1 hnewline with hnewline | hnewline
        · exact hwf hnewline
        · simpa using List.mem_takeWhile_imp hnewline
      · intro d hd
        simpa using head?_dropWhile_false _ behind d hd
      · simp [text]
      · simp [text, List.takeWhile_append_dropWhile]
  | number whole fraction =>
      cases fraction with
      | none => exact length_le_of_whole hwf.1 h
      | some places =>
          refine @longer (.number whole (some (places ++ behind.takeWhile Char.isDigit)))
            (behind.dropWhile Char.isDigit) ⟨hwf.1, ?_⟩ (head?_dropWhile_false _ behind) rfl ?_ ?_
          · rcases hwf.2 places rfl with ⟨hne, hplaces⟩
            rintro more ⟨rfl⟩
            refine ⟨by simp [hne], ?_⟩
            intro d hd
            rcases List.mem_append.1 hd with hd | hd
            · exact hplaces d hd
            · exact List.mem_takeWhile_imp hd
          · simp [text]
          · simp [text, List.takeWhile_append_dropWhile]
  | word word =>
      rcases hwf with ⟨d, more, rfl, hstart, hmore⟩
      refine @longer (.word (d :: (more ++ behind.takeWhile isWordPart)))
        (behind.dropWhile isWordPart) ⟨d, _, rfl, hstart, ?_⟩ (head?_dropWhile_false _ behind)
        rfl ?_ ?_
      · intro e he
        rcases List.mem_append.1 he with he | he
        · exact hmore e he
        · exact List.mem_takeWhile_imp he
      · simp [text]
      · simp [text, List.takeWhile_append_dropWhile]
  | unterminated body => cases hkind
  | unexpected d => cases hkind

/-- Cutting takes the longest text in a class, and all of the text or one character if there is
none. -/
theorem isMunch_cut (c : Char) (rest : List Char) : IsMunch (c :: rest) (cut c rest).1.text := by
  rcases cut_valid c rest with ⟨hwf, hstop⟩
  have whole := text_cut c rest
  have longest : ∀ other, IsLexical other → other <+: c :: rest →
      (cut c rest).1.class?.isSome = true ∧ other.length ≤ (cut c rest).1.text.length := by
    rintro other ⟨kind, hkind⟩ ⟨behind, hbehind⟩
    rcases inClass_iff.1 hkind with ⟨part, hpart, hclass, rfl⟩
    exact length_le_of_cut hpart (by simp [hclass]) hbehind
  cases hkind : (cut c rest).1.class? with
  | some kind =>
      refine Or.inl ⟨⟨kind, inClass_text hwf hkind⟩, ⟨_, whole⟩, ?_⟩
      intro other hother hfront
      exact (longest other hother hfront).2
  | none =>
      refine Or.inr ⟨?_, ?_⟩
      · intro other hother hfront
        have found := (longest other hother hfront).1
        simp [hkind] at found
      · generalize (cut c rest).1 = part at *
        cases part with
        | unterminated body =>
            rw [show (cut c rest).2 = [] from hstop] at whole
            rw [← whole]
            simp [text]
        | unexpected d =>
            have hquote : d ≠ '"' := hwf.2.2.2.1
            rw [← whole]
            simp [text, hquote]
        | _ => cases hkind

/-! ## What a segment stands for -/

private theorem yields_word {word : List Char} (h : IsWord word) (line : Nat) :
    Yields line word (some ⟨.ofWord word, String.ofList word, none, line⟩) none := by
  unfold TokenType.ofWord
  cases hword : Keyword.ofText? word with
  | some reserved =>
      obtain rfl := Keyword.ofText?_eq_some_iff.1 hword
      exact .keyword reserved
  | none =>
      refine .identifier word (.word word h) ?_
      rintro reserved rfl
      rw [Keyword.ofText?_text] at hword
      cases hword

private theorem not_isLexical_of_isUnexpected {c : Char} (h : IsUnexpected c) :
    ¬IsLexical [c] := by
  rintro ⟨kind, hkind⟩
  rcases inClass_iff.1 hkind with ⟨part, hpart, hclass, htext⟩
  have hcut : cut c [] = (unexpected c, []) := cut_eq_iff.2 ⟨h, trivial, rfl⟩
  have whole : part.text ++ [] = [c] := by rw [htext, List.append_nil]
  have found := length_le_of_cut hpart (by simp [hclass]) whole
  rw [hcut] at found
  cases found.1

/-- A segment stands for what its text says it does. -/
theorem yields {part : Segment} (h : part.WellFormed) (line : Nat) :
    Yields line part.text (part.token? line) (part.report? line) := by
  cases part with
  | operator op => exact .operator op
  | blank c => exact .blank _ (inClass_text h rfl)
  | newline => exact .newline _ .newline
  | comment body => exact .comment _ (.comment body h)
  | string body => exact .string body h
  | number whole fraction =>
      refine .number _ _ (inClass_text h rfl) ?_
      exact ofText?_text_number fraction h.1.1 h.1.2 fun places hplaces => (h.2 places hplaces).2
  | word word => exact yields_word h line
  | unterminated body => exact .unterminated body h
  | unexpected c => exact .unexpected c (not_isLexical_of_isUnexpected h) h.2.2.2.1

end Segment

end Lox
