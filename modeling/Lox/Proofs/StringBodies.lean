import Lox.Proofs.Edits

/-!
# Bodies of strings

What stands between the quotes of a string means nothing to a scan but its newlines.  With any other
body without a quote in its place, everything that is found in front of the string is the same, the
string has its token on the same line, and everything that is found behind it is the same on lines
as many further down as there are more newlines in the body.

Main results:

- Theorems `tokensFrom_moved` and `reportsFrom_moved`: what segments stand for on one line is what
  they stand for on any other line, moved by the difference.
- Theorem `Fits.replace_body`: a string fits wherever a string with another body stands.
- Theorem `Cursor.isChain_shieldsBody`: a scan shields the rest of the text from the body of every
  string.
-/

namespace Lox

/-! ## Moving by lines -/

/-- A token some lines further down, or further up if the number is negative. -/
def Token.moved (lines : Int) (token : Token) : Token :=
  { token with line := token.line + lines }

/-- A diagnostic some lines further down, or further up if the number is negative. -/
def Diagnostic.moved (lines : Int) (report : Diagnostic) : Diagnostic :=
  { report with line := report.line + lines }

/-- Segments on any line stand for what they stand for on another, moved by the difference. -/
theorem tokensFrom_moved (here there : Nat) (parts : List Segment) :
    tokensFrom there parts = (tokensFrom here parts).map (Token.moved (there - here)) := by
  have hhere := tokensFrom_add 0 here parts
  have hthere := tokensFrom_add 0 there parts
  rw [Nat.zero_add] at hhere hthere
  rw [hhere, hthere, List.map_map]
  apply List.map_congr_left
  intro token _
  have sum : token.line + there = token.line + here + (there - here) := by omega
  simp only [Function.comp_apply, Token.shiftDown, Token.moved, sum]

/-- Segments on any line are reported as they are on another, moved by the difference. -/
theorem reportsFrom_moved (here there : Nat) (parts : List Segment) :
    reportsFrom there parts = (reportsFrom here parts).map (Diagnostic.moved (there - here)) := by
  have hhere := reportsFrom_add 0 here parts
  have hthere := reportsFrom_add 0 there parts
  rw [Nat.zero_add] at hhere hthere
  rw [hhere, hthere, List.map_map]
  apply List.map_congr_left
  intro report _
  have sum : report.line + there = report.line + here + (there - here) := by omega
  simp only [Function.comp_apply, Diagnostic.shiftDown, Diagnostic.moved, sum]

/-! ## Strings among segments -/

/-- A body between its quotes. -/
def quoted (body : List Char) : List Char :=
  '"' :: (body ++ ['"'])

/-- A text with another body in the string that stands from one place to another. -/
def withBody (source : String) (first behind : Nat) (body : List Char) : String :=
  String.ofList (source.toList.take first ++ quoted body ++ source.toList.drop behind)

/-- The token of a string with the given body. -/
def Token.ofBody (line : Int) (body : List Char) : Token :=
  ⟨.string, String.ofList (quoted body), some (.text (String.ofList body)), line⟩

/-- Only a string stands for a string token. -/
theorem Segment.exists_body_of_token? {part : Segment} {line : Int} {token : Token}
    (h : part.token? line = some token) (htype : token.type = .string) :
    ∃ body, part = .string body := by
  cases part with
  | string body => exact ⟨body, rfl⟩
  | word word =>
      cases h
      unfold TokenType.ofWord at htype
      split at htype <;> cases htype
  | _ => cases h <;> cases htype

section

variable {front back : List Segment} {body : List Char}

/-- A string fits wherever a string with another body stands. -/
theorem Fits.replace_body (h : Fits (front ++ .string body :: back)) {other : List Char}
    (hother : '"' ∉ other) : Fits (front ++ .string other :: back) :=
  h.replace_quoted ⟨hother, trivial, h.right.2.2⟩ rfl rfl

/-- A string has its token between those of the segments around it. -/
theorem tokensFrom_string (line : Nat) :
    tokensFrom line (front ++ .string body :: back) =
      (tokensFrom line front).dropLast ++
        .ofBody (lineBehind line front) body ::
          tokensFrom (lineBehind line front + newlines body) back := by
  rw [tokensFrom_append]
  rfl

/-- A string is not reported. -/
theorem reportsFrom_string (line : Nat) :
    reportsFrom line (front ++ .string body :: back) =
      reportsFrom line front ++ reportsFrom (lineBehind line front + newlines body) back := by
  rw [reportsFrom_append]
  rfl

end

namespace Cursor

/-! ## Texts with another body -/

namespace Divides

variable {source : String} {c : Cursor} {front : List Segment} {body : List Char}

/-- A cursor that completes a scan has found the tokens of the segments that have been read. -/
theorem tokens_eq (h : Divides source c front) (hc : Completes source c) :
    c.tokens = (tokensFrom 1 front).dropLast := by
  have whole : (scan source).tokens =
      (tokensFrom 1 front).dropLast ++ tokensFrom c.line (segments c.ahead) := by
    rw [scan, h.segments_eq, tokensFrom_append, h.lineBehind_front]
  exact List.append_cancel_right (hc.tokens_eq.symm.trans whole)

/-- The segments of a text with another body in the string ahead. -/
theorem segments_withBody (h : Divides source c front)
    (hpart : segments c.ahead = .string body :: segments (c.found (.string body)).ahead)
    {other : List Char} (hother : '"' ∉ other) :
    segments (withBody source c.current (c.found (.string body)).current other).toList =
      front ++ .string other :: segments (c.found (.string body)).ahead := by
  have hfits := h.fits
  rw [hpart] at hfits
  have behind : (c.found (.string body)).ahead =
      source.toList.drop (c.found (.string body)).current := by
    rw [ahead, ← h.inStep.source_eq]
    rfl
  have spelled : (withBody source c.current (c.found (.string body)).current other).toList =
      (front ++ Segment.string other ::
        segments (c.found (.string body)).ahead).flatMap Segment.text := by
    rw [withBody, String.toList_ofList, List.flatMap_append, List.flatMap_cons, text_segments,
      h.text_front, behind, List.append_assoc]
    rfl
  rw [spelled, segments_flatMap (hfits.replace_body hother)]

end Divides

/-! ## Passes over strings -/

/-- What one pass does with the body of a string.  If the pass appends the token of a string, the
text between the two places of the pass is the body between quotes, and the scan of the text with
any other body in its place differs in nothing but that token and the lines behind it. -/
inductive ShieldsBody (source : String) (before after : Cursor) : Prop
  | other (htokens : after.tokens = before.tokens ∨
      ∃ token, after.tokens = before.tokens ++ [token] ∧ token.type ≠ .string)
  | string (body : List Char) (tokens : List Token) (reports : List Diagnostic)
      (hstart : after.start = before.current)
      (hlexeme : (source.toList.take after.current).drop after.start = quoted body)
      (hbody : '"' ∉ body)
      (hfound : after.tokens = before.tokens ++ [.ofBody after.startLine body])
      (htokens : (scan source).tokens = before.tokens ++ .ofBody after.startLine body :: tokens)
      (hreports : (scan source).diagnostics = before.diagnostics ++ reports)
      (hedited : ∀ other : List Char, '"' ∉ other →
        let edited := scan (withBody source after.start after.current other)
        let lines := (newlines other : Int) - newlines body
        edited.tokens =
            before.tokens ++ .ofBody after.startLine other :: tokens.map (Token.moved lines) ∧
          edited.diagnostics = before.diagnostics ++ reports.map (Diagnostic.moved lines))

namespace Divides

variable {source : String} {c next : Cursor} {front : List Segment}

/-- A pass over a string shields its body. -/
theorem shieldsBody_string (h : Divides source c front) (hc : Completes source c)
    {body : List Char} (hbody : '"' ∉ body)
    (hahead : c.ahead = quoted body ++ (c.found (.string body)).ahead)
    (hpart : segments c.ahead = .string body :: segments (c.found (.string body)).ahead) :
    ShieldsBody source c (c.found (.string body)) := by
  have whole := h.segments_eq
  rw [hpart] at whole
  have lexeme : (source.toList.take (c.found (.string body)).current).drop c.current =
      quoted body := by
    have read : (c.found (.string body)).lexeme = quoted body := lexeme_mark_past hahead 0
    rw [← read, Cursor.lexeme, ← h.inStep.source_eq]
    rfl
  refine .string body
    (tokensFrom (c.line + newlines body) (segments (c.found (.string body)).ahead))
    (reportsFrom (c.line + newlines body) (segments (c.found (.string body)).ahead))
    rfl lexeme hbody (tokens_found c (.string body)) ?_ ?_ ?_
  · rw [scan, whole, tokensFrom_string, h.tokens_eq hc, h.lineBehind_front]
    rfl
  · rw [scan, whole, reportsFrom_string, h.diagnostics_eq, h.lineBehind_front]
  · intro other hother edited lines
    have parts := h.segments_withBody hpart hother
    have difference : lines =
        ((c.line + newlines other : Nat) : Int) - (c.line + newlines body : Nat) := by
      simp only [lines]
      omega
    rw [difference, ← tokensFrom_moved, ← reportsFrom_moved]
    constructor
    · rw [h.tokens_eq hc, ← h.lineBehind_front]
      simp only [edited, scan, start_found, parts, tokensFrom_string]
      rw [h.lineBehind_front]
      rfl
    · rw [h.diagnostics_eq, ← h.lineBehind_front]
      simp only [edited, scan, start_found, parts, reportsFrom_string]

/-- Every pass shields the body of the string that it finds. -/
theorem shieldsBody (h : Divides source c front) (hc : Completes source c)
    (hpass : c.pass? = some next) : ShieldsBody source c next := by
  rcases h.pass? hpass with ⟨part, rfl, hahead, hpart, hnext⟩
  cases htoken : part.token? c.line with
  | none => exact .other (.inl (by simp [tokens_found, htoken]))
  | some token =>
      by_cases htype : token.type = .string
      · obtain ⟨body, rfl⟩ := Segment.exists_body_of_token? htoken htype
        have member : Segment.string body ∈ segments c.ahead := by
          rw [hpart]
          exact List.mem_cons_self
        exact h.shieldsBody_string hc (wellFormed_of_mem_segments member) hahead hpart
      · exact .other (.inr ⟨token, by simp [tokens_found, htoken], htype⟩)

end Divides

/-- A scan shields the rest of the text from the body of every string.  Every pass that appends the
token of a string leaves a scan in which the body may be replaced by any other without a quote: what
has been found before is the same, the string has its token with the new body on the old line, and
all that is found later is the same, moved by the difference of the newlines.  The tokens of a scan
are those that the passes append and the closing one. -/
theorem isChain_shieldsBody (source : String) :
    List.IsChain (ShieldsBody source) (ofSource source :: (ofSource source).passes) ∧
      (scan source).tokens =
        (ofSource source).last.tokens ++ [.eof ((1 + newlines source.toList : Nat) : Int)] := by
  constructor
  · refine isChain_of_keeps (P := fun c => (∃ front, Divides source c front) ∧ Completes source c)
      ?_ ?_ ⟨⟨[], divides_ofSource source⟩, completes_ofSource source⟩
    · rintro c next ⟨hdivides, hcompletes⟩ hpass
      exact ⟨divides_pass? c next hdivides hpass, hcompletes.pass? hpass⟩
    · rintro c next ⟨⟨front, hfront⟩, hcompletes⟩ hpass
      exact hfront.shieldsBody hcompletes hpass
  · exact tokens_scan source

end Cursor

end Lox
