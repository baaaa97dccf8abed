import Lox.Text.Utf8
import Mathlib.Data.List.Forall2

/-!
# Texts as bytes

Every text has one encoding, and decoding accepts the encodings of texts and nothing else.  So bytes
are well formed exactly if they are the encoding of some text.  What is well formed is said once
more by the table of byte sequences, with a line for each length.

Main results:

- Theorem `Utf8.isSequence_cons_iff`: the ranges behind a lead byte are those of the table.
- Theorem `Utf8.utf8EncodeChar_character`: a sequence in the table encodes the character it stands
  for.
- Theorem `Utf8.isSequence_utf8EncodeChar`: every character is encoded by a sequence in the table.
- Theorem `Utf8.decode_eq_ok_iff`: decoding gives a text exactly for the encoding of the text.
-/

namespace Lox.Utf8

/-! ## The table of byte sequences -/

/-- A byte lies in a range. -/
def InRange (range : Nat × Nat) (byte : UInt8) : Prop :=
  range.1 ≤ byte.toNat ∧ byte.toNat ≤ range.2

/-- A byte that goes on a character. -/
def IsTail (byte : UInt8) : Prop :=
  0x80 ≤ byte.toNat ∧ byte.toNat ≤ 0xBF

/-- The bytes of one character.  The byte behind the lead byte is bounded further where it decides
that a shorter sequence would do, that the character would be a surrogate, or that it would lie
beyond the last code point. -/
inductive IsSequence : List UInt8 → Prop
  | one (a : UInt8) (ha : a.toNat < 0x80) : IsSequence [a]
  | two (a b : UInt8) (ha : 0xC2 ≤ a.toNat ∧ a.toNat < 0xE0) (hb : IsTail b) : IsSequence [a, b]
  | three (a b d : UInt8) (ha : 0xE0 ≤ a.toNat ∧ a.toNat < 0xF0) (hb : IsTail b) (hd : IsTail d)
      (hlow : a.toNat = 0xE0 → 0xA0 ≤ b.toNat) (hhigh : a.toNat = 0xED → b.toNat ≤ 0x9F) :
      IsSequence [a, b, d]
  | four (a b d e : UInt8) (ha : 0xF0 ≤ a.toNat ∧ a.toNat < 0xF5) (hb : IsTail b) (hd : IsTail d)
      (he : IsTail e) (hlow : a.toNat = 0xF0 → 0x90 ≤ b.toNat)
      (hhigh : a.toNat = 0xF4 → b.toNat ≤ 0x8F) : IsSequence [a, b, d, e]

/-- Behind the lead byte of a sequence in the table the bytes lie in the ranges of the lead byte. -/
theorem IsSequence.exists_ranges {lead : UInt8} {trail : List UInt8}
    (h : IsSequence (lead :: trail)) :
    ∃ ranges, trail? lead = some ranges ∧ List.Forall₂ InRange ranges trail := by
  cases h with
  | one _ ha => exact ⟨[], by simp [trail?, ha], .nil⟩
  | two _ b ha hb =>
      refine ⟨[(0x80, 0xBF)], ?_, .cons hb .nil⟩
      simp [trail?, ha, show ¬lead.toNat < 0x80 by omega, show ¬lead.toNat < 0xC2 by omega]
  | three _ b d ha hb hd hlow hhigh =>
      obtain ⟨lowest, highest⟩ : 0x80 ≤ b.toNat ∧ b.toNat ≤ 0xBF := hb
      by_cases low : lead.toNat = 0xE0
      · exact ⟨[(0xA0, 0xBF), (0x80, 0xBF)], by simp [trail?, low],
          .cons ⟨hlow low, highest⟩ (.cons hd .nil)⟩
      by_cases high : lead.toNat = 0xED
      · exact ⟨[(0x80, 0x9F), (0x80, 0xBF)], by simp [trail?, high],
          .cons ⟨lowest, hhigh high⟩ (.cons hd .nil)⟩
      refine ⟨[(0x80, 0xBF), (0x80, 0xBF)], ?_, .cons ⟨lowest, highest⟩ (.cons hd .nil)⟩
      simp [trail?, low, high, ha, show ¬lead.toNat < 0x80 by omega,
        show ¬lead.toNat < 0xC2 by omega, show ¬lead.toNat < 0xE0 by omega]
  | four _ b d e ha hb hd he hlow hhigh =>
      obtain ⟨lowest, highest⟩ : 0x80 ≤ b.toNat ∧ b.toNat ≤ 0xBF := hb
      by_cases low : lead.toNat = 0xF0
      · exact ⟨[(0x90, 0xBF), (0x80, 0xBF), (0x80, 0xBF)], by simp [trail?, low],
          .cons ⟨hlow low, highest⟩ (.cons hd (.cons he .nil))⟩
      by_cases high : lead.toNat = 0xF4
      · exact ⟨[(0x80, 0x8F), (0x80, 0xBF), (0x80, 0xBF)], by simp [trail?, high],
          .cons ⟨lowest, hhigh high⟩ (.cons hd (.cons he .nil))⟩
      refine ⟨[(0x80, 0xBF), (0x80, 0xBF), (0x80, 0xBF)], ?_,
        .cons ⟨lowest, highest⟩ (.cons hd (.cons he .nil))⟩
      simp [trail?, low, show lead.toNat < 0xF4 by omega, show ¬lead.toNat < 0x80 by omega,
        show ¬lead.toNat < 0xC2 by omega, show ¬lead.toNat < 0xE0 by omega,
        show ¬lead.toNat = 0xE0 by omega, show ¬lead.toNat = 0xED by omega,
        show ¬lead.toNat < 0xF0 by omega]

/-- A lead byte asks for no byte behind it, or for one, two or three.  The first of them may be
bounded further, all others are tails. -/
theorem trail?_cases {lead : UInt8} {ranges : List (Nat × Nat)} (h : trail? lead = some ranges) :
    (lead.toNat < 0x80 ∧ ranges = []) ∨
      ((0xC2 ≤ lead.toNat ∧ lead.toNat < 0xE0) ∧ ranges = [(0x80, 0xBF)]) ∨
      (∃ low high, (0xE0 ≤ lead.toNat ∧ lead.toNat < 0xF0) ∧
        ranges = [(low, high), (0x80, 0xBF)] ∧ 0x80 ≤ low ∧ high ≤ 0xBF ∧
        (lead.toNat = 0xE0 → low = 0xA0) ∧ (lead.toNat = 0xED → high = 0x9F)) ∨
      ∃ low high, (0xF0 ≤ lead.toNat ∧ lead.toNat < 0xF5) ∧
        ranges = [(low, high), (0x80, 0xBF), (0x80, 0xBF)] ∧ 0x80 ≤ low ∧ high ≤ 0xBF ∧
        (lead.toNat = 0xF0 → low = 0x90) ∧ (lead.toNat = 0xF4 → high = 0x8F) := by
  unfold trail? at h
  dsimp only at h
  repeat' split at h
  all_goals cases h
  all_goals simp
  all_goals omega

/-- Bytes in the ranges of a lead byte make up a sequence in the table. -/
theorem isSequence_of_ranges {lead : UInt8} {trail : List UInt8} {ranges : List (Nat × Nat)}
    (hranges : trail? lead = some ranges) (htrail : List.Forall₂ InRange ranges trail) :
    IsSequence (lead :: trail) := by
  rcases trail?_cases hranges with ⟨ha, rfl⟩ | ⟨ha, rfl⟩ |
    ⟨low, high, ha, rfl, lowest, highest, hlow, hhigh⟩ |
    ⟨low, high, ha, rfl, lowest, highest, hlow, hhigh⟩
  · cases htrail
    exact .one _ ha
  · rcases htrail with _ | ⟨hb, _ | _⟩
    exact .two _ _ ha hb
  · rcases htrail with _ | ⟨⟨hfrom, hto⟩, _ | ⟨hd, _ | _⟩⟩
    dsimp only at hfrom hto
    exact .three _ _ _ ha ⟨by omega, by omega⟩ hd (by omega) (by omega)
  · rcases htrail with _ | ⟨⟨hfrom, hto⟩, _ | ⟨hd, _ | ⟨he, _ | _⟩⟩⟩
    dsimp only at hfrom hto
    exact .four _ _ _ _ ha ⟨by omega, by omega⟩ hd he (by omega) (by omega)

/-- The ranges behind a lead byte are those of the table. -/
theorem isSequence_cons_iff {lead : UInt8} {trail : List UInt8} :
    IsSequence (lead :: trail) ↔
      ∃ ranges, trail? lead = some ranges ∧ List.Forall₂ InRange ranges trail :=
  ⟨IsSequence.exists_ranges, fun ⟨_, hranges, htrail⟩ => isSequence_of_ranges hranges htrail⟩

/-! ## One character -/

private theorem val_ofNat_toNat {code : Nat} (valid : code.isValidChar) :
    (Char.ofNat code).val.toNat = code := by
  rw [Char.ofNat, dif_pos valid]
  exact UInt32.toNat_ofNatLT ..

/-- A sequence in the table encodes the character it stands for. -/
theorem utf8EncodeChar_character {lead : UInt8} {trail : List UInt8}
    (h : IsSequence (lead :: trail)) :
    String.utf8EncodeChar (character lead trail) = lead :: trail := by
  cases h with
  | one _ ha =>
      have code : character lead [] = Char.ofNat lead.toNat := rfl
      have valid : lead.toNat.isValidChar := by unfold Nat.isValidChar; omega
      rw [code, String.utf8EncodeChar, val_ofNat_toNat valid, if_pos (by omega)]
      simp only [List.cons.injEq, and_true, ← UInt8.toNat_inj, UInt8.toNat_ofNat']
      omega
  | two _ b ha hb =>
      simp only [IsTail] at hb
      have code : character lead [b] =
          Char.ofNat ((lead.toNat - 0xC0) * 64 + (b.toNat - 0x80)) := rfl
      have valid : ((lead.toNat - 0xC0) * 64 + (b.toNat - 0x80)).isValidChar := by
        unfold Nat.isValidChar; omega
      rw [code, String.utf8EncodeChar, val_ofNat_toNat valid, if_neg (by omega), if_pos (by omega)]
      simp only [List.cons.injEq, and_true, ← UInt8.toNat_inj, UInt8.toNat_ofNat']
      omega
  | three _ b d ha hb hd hlow hhigh =>
      simp only [IsTail] at hb hd
      have code : character lead [b, d] =
          Char.ofNat (((lead.toNat - 0xE0) * 64 + (b.toNat - 0x80)) * 64 + (d.toNat - 0x80)) := rfl
      have valid :
          (((lead.toNat - 0xE0) * 64 + (b.toNat - 0x80)) * 64 + (d.toNat - 0x80)).isValidChar := by
        unfold Nat.isValidChar; omega
      rw [code, String.utf8EncodeChar, val_ofNat_toNat valid, if_neg (by omega), if_neg (by omega),
        if_pos (by omega)]
      simp only [List.cons.injEq, and_true, ← UInt8.toNat_inj, UInt8.toNat_ofNat']
      omega
  | four _ b d e ha hb hd he hlow hhigh =>
      simp only [IsTail] at hb hd he
      have code : character lead [b, d, e] =
          Char.ofNat ((((lead.toNat - 0xF0) * 64 + (b.toNat - 0x80)) * 64 + (d.toNat - 0x80)) * 64 +
            (e.toNat - 0x80)) := rfl
      have valid :
          ((((lead.toNat - 0xF0) * 64 + (b.toNat - 0x80)) * 64 + (d.toNat - 0x80)) * 64 +
            (e.toNat - 0x80)).isValidChar := by
        unfold Nat.isValidChar; omega
      rw [code, String.utf8EncodeChar, val_ofNat_toNat valid, if_neg (by omega), if_neg (by omega),
        if_neg (by omega)]
      simp only [List.cons.injEq, and_true, ← UInt8.toNat_inj, UInt8.toNat_ofNat']
      omega

/-- Every character is encoded by a sequence in the table. -/
theorem isSequence_utf8EncodeChar (c : Char) : IsSequence (String.utf8EncodeChar c) := by
  have valid : c.val.toNat.isValidChar := c.valid
  unfold Nat.isValidChar at valid
  unfold String.utf8EncodeChar
  dsimp only
  split
  · exact .one _ (by simp only [UInt8.toNat_ofNat']; omega)
  split
  · refine .two _ _ ?_ ?_ <;> simp only [IsTail, UInt8.toNat_ofNat'] <;> omega
  split
  · refine .three _ _ _ ?_ ?_ ?_ ?_ ?_ <;> simp only [IsTail, UInt8.toNat_ofNat'] <;> omega
  · refine .four _ _ _ _ ?_ ?_ ?_ ?_ ?_ ?_ <;> simp only [IsTail, UInt8.toNat_ofNat'] <;> omega

/-- Characters are told apart by their encodings. -/
theorem utf8EncodeChar_injective : Function.Injective String.utf8EncodeChar := by
  intro c d h
  have hc := ByteArray.utf8DecodeChar?_utf8EncodeChar_append (b := .empty) (c := c)
  rw [h, ByteArray.utf8DecodeChar?_utf8EncodeChar_append] at hc
  exact (Option.some.inj hc).symm

/-! ## Decoding -/

/-- All bytes asked for are there if they lie in their ranges. -/
theorem trailLength_append_eq_length {ranges : List (Nat × Nat)} {trail : List UInt8}
    (h : List.Forall₂ InRange ranges trail) (rest : List UInt8) :
    trailLength ranges (trail ++ rest) = ranges.length := by
  induction h with
  | nil => simp [trailLength]
  | cons hbyte _ ih =>
      unfold InRange at hbyte
      rw [List.cons_append, trailLength, if_pos hbyte, ih, List.length_cons]

/-- All bytes asked for lie in their ranges if they are there. -/
theorem forall₂_take_of_trailLength {ranges : List (Nat × Nat)} {bytes : List UInt8}
    (h : trailLength ranges bytes = ranges.length) :
    List.Forall₂ InRange ranges (bytes.take ranges.length) := by
  fun_induction trailLength ranges bytes with
  | case1 range ranges byte bytes hbyte ih => exact .cons hbyte (ih (by simpa using h))
  | case2 => simp at h
  | case3 ranges bytes hne =>
      cases ranges with
      | nil => simp
      | cons range ranges => simp at h

/-- A sequence in the table is the first character of all bytes that begin with it. -/
theorem first_append {lead : UInt8} {trail : List UInt8} (h : IsSequence (lead :: trail))
    (rest : List UInt8) :
    first lead (trail ++ rest) = (trail.length, .ok (character lead trail)) := by
  obtain ⟨ranges, hranges, htrail⟩ := isSequence_cons_iff.1 h
  simp [first, hranges, trailLength_append_eq_length htrail, htrail.length_eq]

/-- The first character of bytes is one that the bytes taken for it are the encoding of. -/
theorem isSequence_of_first {lead : UInt8} {bytes : List UInt8} {found : Nat} {c : Char}
    (h : first lead bytes = (found, .ok c)) :
    IsSequence (lead :: bytes.take found) ∧ c = character lead (bytes.take found) := by
  unfold first at h
  split at h
  · cases h
  · next ranges hranges =>
    dsimp only at h
    split at h
    · next hfound =>
      cases h
      refine ⟨isSequence_cons_iff.2 ⟨ranges, hranges, ?_⟩, rfl⟩
      rw [hfound]
      exact forall₂_take_of_trailLength hfound
    · split at h <;> cases h

/-- What has been decoded, encoded again, is the bytes. -/
theorem decodeFrom_sound {position : Nat} {decoded : List Char} {bytes : List UInt8}
    {chars : List Char} (h : decodeFrom position decoded bytes = .ok chars) :
    ∃ text, chars = decoded.reverse ++ text ∧ text.flatMap String.utf8EncodeChar = bytes := by
  fun_induction decodeFrom position decoded bytes with
  | case1 position decoded => exact ⟨[], by simpa using (Except.ok.inj h).symm, rfl⟩
  | case2 position decoded lead bytes found c hfirst ih =>
      obtain ⟨text, htext, hbytes⟩ := ih h
      obtain ⟨hsequence, rfl⟩ := isSequence_of_first hfirst
      refine ⟨_ :: text, by simpa using htext, ?_⟩
      rw [List.flatMap_cons, utf8EncodeChar_character hsequence, hbytes, List.cons_append,
        List.take_append_drop]
  | case3 => cases h

/-- The encoding of a text is decoded, and what stands behind it is decoded next. -/
theorem decodeFrom_encode_append (position : Nat) (decoded text : List Char)
    (rest : List UInt8) :
    decodeFrom position decoded (text.flatMap String.utf8EncodeChar ++ rest) =
      decodeFrom (position + (text.flatMap String.utf8EncodeChar).length)
        (text.reverse ++ decoded) rest := by
  induction text generalizing position decoded with
  | nil => rfl
  | cons c text ih =>
      have hsequence := isSequence_utf8EncodeChar c
      rcases hencoded : String.utf8EncodeChar c with _ | ⟨lead, trail⟩
      · exact absurd hencoded String.utf8EncodeChar_ne_nil
      rw [hencoded] at hsequence
      have hc : character lead trail = c :=
        utf8EncodeChar_injective ((utf8EncodeChar_character hsequence).trans hencoded.symm)
      rw [List.flatMap_cons, hencoded, List.append_assoc, List.cons_append, decodeFrom,
        first_append hsequence]
      dsimp only
      rw [hc, List.drop_left, ih]
      simp [Nat.add_assoc, Nat.add_comm 1]

/-- The encoding of a text is decoded. -/
theorem decodeFrom_encode (position : Nat) (decoded text : List Char) :
    decodeFrom position decoded (text.flatMap String.utf8EncodeChar) =
      .ok (decoded.reverse ++ text) := by
  rw [← List.append_nil (text.flatMap String.utf8EncodeChar), decodeFrom_encode_append, decodeFrom]
  simp

/-- Decoding gives a text exactly for the encoding of the text. -/
theorem decode_eq_ok_iff {bytes : List UInt8} {text : String} :
    decode bytes = .ok text ↔ encode text = bytes := by
  constructor
  · intro h
    unfold decode at h
    split at h
    · next chars hchars =>
      obtain ⟨found, rfl, rfl⟩ := decodeFrom_sound hchars
      cases h
      simp [encode]
    · cases h
  · rintro rfl
    simp [decode, encode, decodeFrom_encode]

/-- The encoding of a text is decoded to the text. -/
@[simp] theorem decode_encode (text : String) : decode (encode text) = .ok text :=
  decode_eq_ok_iff.2 rfl

/-- Bytes are refused exactly if they are the encoding of no text. -/
theorem exists_decode_eq_error_iff {bytes : List UInt8} :
    (∃ fault, decode bytes = .error fault) ↔ ∀ text, encode text ≠ bytes := by
  rcases h : decode bytes with fault | text
  · simp [← decode_eq_ok_iff, h]
  · simpa using ⟨text, decode_eq_ok_iff.1 h⟩

end Lox.Utf8
