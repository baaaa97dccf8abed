import Lox.Proofs.Operations
import Lox.Proofs.Resumption

/-!
# How far a pass looks ahead

A pass cuts one segment off the text and asks for two characters behind it at most.  So a pass that
ends two characters in front of a place depends only on the text up to the place: over every other
text that is the same up to there it is the same pass.  What holds of one pass holds of a run, since
the passes before it end further in front.

Main results:

- Theorem `Segment.Stops.of_take_eq`: a segment stops in front of every text that begins with the
  same two characters.
- Theorem `Cursor.pass?_withText`: a pass is the same over every text that is the same up to two
  characters behind its end.
- Theorem `Cursor.take_passes_withText`: so is every run of passes.
- Theorem `Cursor.passes_eq_of_take_eq`: two texts with a common beginning are passed over alike as
  far as two characters before its end.
-/

namespace Lox

namespace Segment

variable {part : Segment} {behind : List Char}

/-- A segment stops in front of every text that begins with the same two characters. -/
theorem Stops.of_take_eq (h : part.Stops behind) {other : List Char}
    (same : behind.take 2 = other.take 2) : part.Stops other := by
  rw [← stops_take_two] at h ⊢
  rwa [← same]

end Segment

/-- Texts that are the same up to a place are the same between two places in front of it. -/
theorem take_drop_eq_of_take_eq {text other : List Char} {place first count : Nat}
    (same : text.take place = other.take place) (inside : first + count ≤ place) :
    (text.drop first).take count = (other.drop first).take count := by
  have front : text.take (first + count) = other.take (first + count) := by
    rw [← Nat.min_eq_left inside, ← List.take_take, ← List.take_take, same]
  rw [List.take_drop, List.take_drop, front]

namespace Cursor

/-- A pass finds the segment that stands ahead and stops. -/
theorem pass?_of_stops {c : Cursor} {part : Segment} {behind : List Char} (hwf : part.WellFormed)
    (hstop : part.Stops behind) (hahead : c.ahead = part.text ++ behind) :
    c.pass? = some (c.found part) := by
  rcases List.exists_cons_of_ne_nil (Segment.text_ne_nil hwf) with ⟨first, rest, hcons⟩
  have whole : c.ahead = first :: (rest ++ behind) := by rw [hahead, hcons, List.cons_append]
  rw [pass?_of_ahead_cons whole, Segment.cut_of_stops hwf hstop (hahead.symm.trans whole)]

/-! ## Over another text -/

/-- A cursor at the same place of another text, with everything it has counted and found. -/
def withText (c : Cursor) (text : List Char) : Cursor :=
  { c with source := text }

/-- A pass is the same over every text that is the same up to two characters behind its end. -/
theorem pass?_withText {c next : Cursor} (h : c.pass? = some next) {text : List Char} {place : Nat}
    (same : c.source.take place = text.take place) (hplace : next.current + 2 ≤ place) :
    (c.withText text).pass? = some (next.withText text) := by
  rcases exists_part_of_pass? h with ⟨part, hwf, hstop, rfl, hahead⟩
  have length : c.current + part.text.length ≤ place := Nat.le_trans (Nat.le_add_right _ 2) hplace
  have read : (text.drop c.current).take part.text.length = part.text := by
    rw [← take_drop_eq_of_take_eq same length]
    exact (congrArg (List.take _) hahead).trans (List.take_left' rfl)
  have spelled : (c.withText text).ahead =
      part.text ++ text.drop (c.current + part.text.length) := by
    rw [← List.drop_drop]
    nth_rewrite 1 [← read]
    exact (List.take_append_drop _ _).symm
  exact pass?_of_stops hwf (hstop.of_take_eq (take_drop_eq_of_take_eq same hplace)) spelled

/-- A run of passes is the same over every text that is the same up to two characters behind the end
of its last pass. -/
theorem take_passes_withText {c last : Cursor} {count : Nat} (hlast : c.passes[count]? = some last)
    {text : List Char} {place : Nat} (same : c.source.take place = text.take place)
    (hplace : last.current + 2 ≤ place) :
    (c.withText text).passes.take (count + 1) =
      (c.passes.take (count + 1)).map fun d => d.withText text := by
  induction c using passes.induct generalizing count with
  | case1 c h => simp [passes_of_none h] at hlast
  | case2 c next h _ ih =>
      rw [passes_of_some h] at hlast ⊢
      -- the first pass ends no later than the last one
      have later : next.current ≤ last.current := by
        have reached := forall_mem_passes (P := fun d => next.current ≤ d.current)
          (fun _ _ hd hpass => Nat.le_trans hd (grows_of_pass? hpass).current_le)
          (Nat.le_refl next.current)
        exact reached last (List.mem_of_getElem? hlast)
      have source : next.source.take place = text.take place := by
        rcases exists_part_of_pass? h with ⟨part, -, -, rfl, -⟩
        exact same
      rw [passes_of_some (pass?_withText h same (by omega)), List.take_succ_cons,
        List.take_succ_cons, List.map_cons]
      congr 1
      cases count with
      | zero => simp
      | succ count => exact ih hlast source

/-- Two texts with a common beginning are passed over alike as far as two characters before its end.
If the pass with some number over the one text ends there, the passes up to it are those over the
other text: they have the same starts, ends and lines and the same tokens and reports behind them,
since only the text that they stand on is another. -/
theorem passes_eq_of_take_eq {first second : String} {place count : Nat} {last : Cursor}
    (same : first.toList.take place = second.toList.take place)
    (hlast : (ofSource first).passes[count]? = some last) (hplace : last.current + 2 ≤ place) :
    (ofSource second).passes.take (count + 1) =
      ((ofSource first).passes.take (count + 1)).map fun c => c.withText second.toList :=
  take_passes_withText (c := ofSource first) hlast same hplace

/-- A number with a point and a quote behind it: the passes up to the number are the same whether
the quote opens a string that ends or one that does not. -/
theorem passes_eq_of_take_eq_open_string :
    let first := "x\n1.\""
    let second := "x\n1.\" y\""
    first.toList.take 5 = second.toList.take 5 ∧
      (∃ last, (ofSource first).passes[2]? = some last ∧ last.current + 2 ≤ 5) ∧
      (ofSource second).passes.take 3 =
        ((ofSource first).passes.take 3).map fun c => c.withText second.toList := by
  intro first second
  have same : first.toList.take 5 = second.toList.take 5 := by decide +kernel
  have place : ((ofSource first).passes[2]?).map current = some 3 := by decide +kernel
  obtain ⟨last, hlast, hcurrent⟩ := Option.map_eq_some_iff.1 place
  have hplace : last.current + 2 ≤ 5 := by omega
  exact ⟨same, ⟨last, hlast, hplace⟩, passes_eq_of_take_eq same hlast hplace⟩

/-- One character behind a number is not enough to tell where it ends. -/
example : (ofSource "1.").passes.map current = [1, 2] ∧
    (ofSource "1.5").passes.map current = [3] := by
  decide +kernel

end Cursor

end Lox
