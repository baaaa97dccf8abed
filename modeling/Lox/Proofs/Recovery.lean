import Lox.Proofs.Edits

/-!
# Recovery from faults

A fault disturbs nothing around it.  With a space in the place of an unexpected character, or with
the missing quote behind a string without an end, the rest of the text is scanned as before: the
report on the fault is gone, all other reports are the same, and so are the tokens, apart from the
one for the string that has an end now.

Main results:

- Theorem `Fits.mend_unexpected`: a blank fits wherever an unexpected character stands.
- Theorem `Fits.mend_unterminated`: a string fits wherever one without an end stands.
- Theorem `Cursor.isChain_recovers`: a scan recovers from every report that a pass makes.
-/

namespace Lox

/-! ## Unexpected characters -/

section Unexpected

variable {front back : List Segment} {c : Char}

/-- A blank fits wherever an unexpected character stands. -/
theorem Fits.mend_unexpected (h : Fits (front ++ .unexpected c :: back)) :
    Fits (front ++ .blank ' ' :: back) := by
  rcases h.right with ⟨hwf, -, hback⟩
  have hnewline : c ≠ '\n' := hwf.2.2.1
  refine h.replace ⟨rfl, trivial, hback⟩ ?_
  intro part behind hstop
  refine hstop.blank_instead (List.cons_ne_nil _ _) (Or.inl rfl) (Or.inr ?_) _
  simpa [Segment.text] using hnewline

/-- A blank stands for the same tokens as an unexpected character. -/
theorem tokensFrom_mend_unexpected (line : Nat) :
    tokensFrom line (front ++ .blank ' ' :: back) =
      tokensFrom line (front ++ .unexpected c :: back) := by
  rw [tokensFrom_append, tokensFrom_append]
  rfl

/-- An unexpected character is reported behind the reports on the segments in front of it. -/
theorem reportsFrom_unexpected (line : Nat) :
    reportsFrom line (front ++ .unexpected c :: back) =
      reportsFrom line front ++
        .ofError (lineBehind line front) .unexpectedCharacter ::
          reportsFrom (lineBehind line front) back := by
  rw [reportsFrom_append]
  rfl

/-- With a blank in the place of an unexpected character the report on it is gone. -/
theorem reportsFrom_mend_unexpected (line : Nat) :
    reportsFrom line (front ++ .blank ' ' :: back) =
      (reportsFrom line (front ++ .unexpected c :: back)).eraseIdx
        (reportsFrom line front).length := by
  rw [reportsFrom_unexpected, List.eraseIdx_append_of_length_le (Nat.le_refl _), Nat.sub_self,
    List.eraseIdx_cons_zero, reportsFrom_append]
  rfl

end Unexpected

/-! ## Strings without an end -/

section Unterminated

variable {front : List Segment} {body : List Char}

/-- A string fits wherever one without an end stands. -/
theorem Fits.mend_unterminated (h : Fits (front ++ [.unterminated body])) :
    Fits (front ++ [.string body]) := by
  rcases h.right with ⟨hwf, -, -⟩
  exact h.replace_quoted ⟨hwf, trivial, trivial⟩ (List.flatMap_singleton _ _)
    (List.flatMap_singleton _ _)

/-- A string without an end leaves the tokens in front of it and the closing one. -/
theorem tokensFrom_unterminated (line : Nat) :
    tokensFrom line (front ++ [.unterminated body]) =
      (tokensFrom line front).dropLast ++
        [.eof ((lineBehind line front + newlines body : Nat))] := by
  rw [tokensFrom_append]
  rfl

/-- A string with an end leaves its token too. -/
theorem tokensFrom_mend_unterminated (line : Nat) :
    tokensFrom line (front ++ [.string body]) =
      (tokensFrom line front).dropLast ++
        [⟨.string, String.ofList ('"' :: (body ++ ['"'])), some (.text (String.ofList body)),
          lineBehind line front⟩, .eof ((lineBehind line front + newlines body : Nat))] := by
  rw [tokensFrom_append]
  rfl

/-- With its end a string is not reported. -/
theorem reportsFrom_mend_unterminated (line : Nat) :
    reportsFrom line (front ++ [.unterminated body]) =
      reportsFrom line (front ++ [.string body]) ++
        [.ofError (lineBehind line front + newlines body) .unterminatedString] := by
  rw [reportsFrom_append, reportsFrom_append, List.append_assoc]
  rfl

end Unterminated

namespace Cursor

/-! ## Mended texts -/

variable {source : String} {c next : Cursor} {front : List Segment}

namespace Divides

/-- The segments of a text with a space in the place of an unexpected character. -/
theorem segments_set (h : Divides source c front) {fault : Char} {behind : List Char}
    (hahead : c.ahead = fault :: behind)
    (hpart : segments c.ahead = .unexpected fault :: segments behind) :
    segments (source.toList.set c.current ' ') = front ++ .blank ' ' :: segments behind := by
  have hfits := h.fits
  rw [hpart] at hfits
  have spelled : source.toList.set c.current ' ' =
      (front ++ Segment.blank ' ' :: segments behind).flatMap Segment.text := by
    rw [h.toList_eq, ← h.length_front, hahead, List.set_append_right _ _ (Nat.le_refl _),
      Nat.sub_self, List.set_cons_zero, List.flatMap_append, List.flatMap_cons, text_segments]
    rfl
  rw [spelled, segments_flatMap hfits.mend_unexpected]

/-- The segments of a text with a quote behind a string without an end. -/
theorem segments_quote (h : Divides source c front) {body : List Char}
    (hahead : c.ahead = '"' :: body) (hpart : segments c.ahead = [.unterminated body]) :
    segments (source.toList ++ ['"']) = front ++ [.string body] := by
  have hfits := h.fits
  rw [hpart] at hfits
  have spelled : source.toList ++ ['"'] =
      (front ++ [Segment.string body]).flatMap Segment.text := by
    rw [h.toList_eq, hahead, List.flatMap_append, List.flatMap_singleton, List.append_assoc]
    rfl
  rw [spelled, segments_flatMap hfits.mend_unterminated]

end Divides

/-! ## Passes that report -/

/-- How a scan recovers from what one pass reports.  With a space in the place of an unexpected
character the scan has the same tokens and all reports but the one on it.  With a quote behind a
string without an end it has one token more in front of the closing one, and all reports but the
last. -/
inductive Recovers (source : String) (before after : Cursor) : Prop
  | silent (hsilent : after.diagnostics = before.diagnostics)
  | unexpected (report : Diagnostic) (fault : Char)
      (hreport : after.diagnostics = before.diagnostics ++ [report])
      (hmessage : report.message = LexicalError.unexpectedCharacter.message)
      (hfault : source.toList[after.start]? = some fault)
      (hplace : (scan source).diagnostics[before.diagnostics.length]? = some report)
      (htokens : (scan (String.ofList (source.toList.set after.start ' '))).tokens =
        (scan source).tokens)
      (hreports : (scan (String.ofList (source.toList.set after.start ' '))).diagnostics =
        (scan source).diagnostics.eraseIdx before.diagnostics.length)
  | unterminated (report : Diagnostic) (tokens : List Token) (closing : Token)
      (hreport : after.diagnostics = before.diagnostics ++ [report])
      (hmessage : report.message = LexicalError.unterminatedString.message)
      (hquote : source.toList[after.start]? = some '"')
      (hclosing : closing.type = .eof)
      (htokens : (scan source).tokens = tokens ++ [closing])
      (hmended : (scan (source ++ "\"")).tokens =
        tokens ++ [⟨.string, String.ofList (source.toList.drop after.start ++ ['"']),
          some (.text (String.ofList (source.toList.drop (after.start + 1)))),
          ((1 + newlines (source.toList.take after.start) : Nat) : Int)⟩, closing])
      (hreports : (scan source).diagnostics = (scan (source ++ "\"")).diagnostics ++ [report])

namespace Divides

/-- A scan recovers from an unexpected character. -/
theorem recovers_unexpected (h : Divides source c front) {fault : Char}
    (hahead : c.ahead = fault :: (c.found (.unexpected fault)).ahead)
    (hpart : segments c.ahead = .unexpected fault :: segments (c.found (.unexpected fault)).ahead) :
    Recovers source c (c.found (.unexpected fault)) := by
  have whole := h.segments_eq
  rw [hpart] at whole
  have mended := h.segments_set hahead hpart
  have hlength : c.diagnostics.length = (reportsFrom 1 front).length := by rw [h.diagnostics_eq]
  refine .unexpected (.ofError c.line .unexpectedCharacter) fault
    (diagnostics_found c (.unexpected fault)) rfl ?_ ?_ ?_ ?_
  · rw [start_found, ← List.head?_drop, ← h.ahead_eq, hahead, List.head?_cons]
  · rw [scan, whole, reportsFrom_unexpected, hlength, h.lineBehind_front,
      List.getElem?_append_right (Nat.le_refl _), Nat.sub_self, List.getElem?_cons_zero]
  · rw [start_found, scan, scan, String.toList_ofList, mended, whole]
    exact tokensFrom_mend_unexpected 1
  · rw [start_found, scan, scan, String.toList_ofList, mended, whole, hlength]
    exact reportsFrom_mend_unexpected 1

/-- A scan recovers from a string without an end. -/
theorem recovers_unterminated (h : Divides source c front) {body : List Char}
    (hahead : c.ahead = '"' :: body) (hpart : segments c.ahead = [.unterminated body]) :
    Recovers source c (c.found (.unterminated body)) := by
  have whole := h.segments_eq
  rw [hpart] at whole
  have mended := h.segments_quote hahead hpart
  have behind : (source ++ "\"").toList = source.toList ++ ['"'] := String.toList_append
  have line : lineBehind 1 front = 1 + newlines (source.toList.take c.current) := by
    rw [h.lineBehind_front, h.inStep.line_eq]
  have open_text : source.toList.drop c.current = '"' :: body := by rw [← h.ahead_eq, hahead]
  have open_body : source.toList.drop (c.current + 1) = body := by
    rw [← List.drop_drop, open_text, List.drop_one, List.tail_cons]
  refine .unterminated (.ofError (c.line + newlines body) .unterminatedString)
    (tokensFrom 1 front).dropLast (.eof ((lineBehind 1 front + newlines body : Nat)))
    (diagnostics_found c (.unterminated body)) rfl ?_ rfl ?_ ?_ ?_
  · rw [start_found, ← List.head?_drop, open_text, List.head?_cons]
  · rw [scan, whole]
    exact tokensFrom_unterminated 1
  · rw [start_found, scan, behind, mended, open_text, open_body, ← line]
    exact tokensFrom_mend_unterminated 1
  · rw [scan, scan, behind, mended, whole, ← h.lineBehind_front]
    exact reportsFrom_mend_unterminated 1

/-- A scan recovers from what a pass over its text reports. -/
theorem recovers (h : Divides source c front) (hpass : c.pass? = some next) :
    Recovers source c next := by
  rcases h.pass? hpass with ⟨part, rfl, hahead, hpart, -⟩
  cases part with
  | unexpected fault => exact h.recovers_unexpected hahead hpart
  | unterminated body =>
      -- nothing stands behind a string without an end
      have hfits := h.fits
      rw [hpart] at hfits
      have ended : (segments (c.found (.unterminated body)).ahead).flatMap Segment.text = [] :=
        hfits.right.2.1
      rw [text_segments] at ended
      rw [ended] at hahead hpart
      refine h.recovers_unterminated (hahead.trans (List.append_nil _)) (hpart.trans ?_)
      rw [segments]
  | _ => exact .silent ((diagnostics_found c _).trans (List.append_nil _))

end Divides

/-- A scan recovers from every report.  Each pass over a text leaves a report that is undone by the
one character that mends the fault, or none, and the passes make all the reports of the scan. -/
theorem isChain_recovers (source : String) :
    List.IsChain (Recovers source) (ofSource source :: (ofSource source).passes) ∧
      (scan source).diagnostics = (ofSource source).last.diagnostics := by
  constructor
  · refine isChain_of_keeps divides_pass? ?_ ⟨[], divides_ofSource source⟩
    rintro c next ⟨front, hfront⟩ hpass
    exact hfront.recovers hpass
  · rw [scan_eq_finish, diagnostics_finish rfl]

end Cursor

end Lox
