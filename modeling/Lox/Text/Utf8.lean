import Lox.Numeral

/-!
# UTF-8

Decoding bytes as UTF-8.  Each character is a lead byte and up to three bytes behind it, whose
ranges depend on the lead byte; the ranges leave out overlong forms, surrogates and everything
beyond the last code point.  Bytes that are no UTF-8 are refused at the first character that goes
wrong, and the fault tells which bytes are to blame: the lead byte and those behind it that could
still have belonged to a character.

Main results:

- `Utf8.trailLength_le_bytes`: no more bytes are taken than there are.
-/

namespace Lox.Utf8

/-- Why bytes are no UTF-8. -/
inductive Reason where
  | startByte
  | continuationByte
  | endOfData
  deriving DecidableEq

/-- Where bytes are no UTF-8: the faulty bytes by their position and number, and the first of
them. -/
structure Fault where
  position : Nat
  length : Nat
  byte : UInt8
  reason : Reason
  deriving DecidableEq

/-! ## Encoding -/

/-- The bytes of a text. -/
def encode (text : String) : List UInt8 :=
  text.toList.flatMap String.utf8EncodeChar

/-! ## Decoding -/

/-- The ranges of the bytes behind a lead byte.  Some bytes lead no character. -/
def trail? (lead : UInt8) : Option (List (Nat × Nat)) :=
  let n := lead.toNat
  if n < 0x80 then some []
  else if n < 0xC2 then none
  else if n < 0xE0 then some [(0x80, 0xBF)]
  else if n = 0xE0 then some [(0xA0, 0xBF), (0x80, 0xBF)]
  else if n = 0xED then some [(0x80, 0x9F), (0x80, 0xBF)]
  else if n < 0xF0 then some [(0x80, 0xBF), (0x80, 0xBF)]
  else if n = 0xF0 then some [(0x90, 0xBF), (0x80, 0xBF), (0x80, 0xBF)]
  else if n < 0xF4 then some [(0x80, 0xBF), (0x80, 0xBF), (0x80, 0xBF)]
  else if n = 0xF4 then some [(0x80, 0x8F), (0x80, 0xBF), (0x80, 0xBF)]
  else none

/-- How many bytes at the front lie in the ranges asked for. -/
def trailLength : List (Nat × Nat) → List UInt8 → Nat
  | range :: ranges, byte :: bytes =>
      if range.1 ≤ byte.toNat ∧ byte.toNat ≤ range.2 then trailLength ranges bytes + 1 else 0
  | _, _ => 0

/-- The bits that a lead byte adds to a code point. -/
def leadBits (lead : UInt8) : List UInt8 → Nat
  | [] => lead.toNat
  | [_] => lead.toNat - 0xC0
  | [_, _] => lead.toNat - 0xE0
  | _ => lead.toNat - 0xF0

/-- The character of a lead byte and the bytes behind it, each of which adds six bits. -/
def character (lead : UInt8) (trail : List UInt8) : Char :=
  Char.ofNat (trail.foldl (fun code byte => code * 64 + (byte.toNat - 0x80)) (leadBits lead trail))

/-- How many bytes behind a lead byte belong to it, and their character or the reason why they have
none. -/
def first (lead : UInt8) (bytes : List UInt8) : Nat × Except Reason Char :=
  match trail? lead with
  | none => (0, .error .startByte)
  | some ranges =>
      let found := trailLength ranges bytes
      if found = ranges.length then (found, .ok (character lead (bytes.take found)))
      else if found = bytes.length then (found, .error .endOfData)
      else (found, .error .continuationByte)

/-- Decodes bytes that stand at the given position behind characters that have been decoded, the
last of these first. -/
def decodeFrom (position : Nat) (decoded : List Char) : List UInt8 → Except Fault (List Char)
  | [] => .ok decoded.reverse
  | lead :: bytes =>
      match first lead bytes with
      | (found, .ok c) => decodeFrom (position + 1 + found) (c :: decoded) (bytes.drop found)
      | (found, .error reason) => .error ⟨position, 1 + found, lead, reason⟩
termination_by bytes => bytes.length
decreasing_by
  simp only [List.length_drop, List.length_cons]
  omega

/-- Decodes a text. -/
def decode (bytes : List UInt8) : Except Fault String :=
  match decodeFrom 0 [] bytes with
  | .ok chars => .ok (String.ofList chars)
  | .error fault => .error fault

/-- The bytes without a byte order mark in front. -/
def dropMark : List UInt8 → List UInt8
  | 0xEF :: 0xBB :: 0xBF :: bytes => bytes
  | bytes => bytes

/-- No more bytes are taken than there are. -/
theorem trailLength_le_bytes (ranges : List (Nat × Nat)) (bytes : List UInt8) :
    trailLength ranges bytes ≤ bytes.length := by
  fun_induction trailLength ranges bytes with
  | case1 range ranges byte bytes _ ih => exact Nat.succ_le_succ ih
  | case2 => exact Nat.zero_le _
  | case3 => exact Nat.zero_le _

/-! ## Messages -/

/-- A reason in words. -/
def Reason.message : Reason → String
  | startByte => "invalid start byte"
  | continuationByte => "invalid continuation byte"
  | endOfData => "unexpected end of data"

/-- A fault in words.  A single byte is shown, several are shown by their positions. -/
def Fault.message (fault : Fault) : String :=
  let place :=
    if fault.length = 1 then
      "byte 0x" ++ String.ofList (Numeral.padded 16 2 fault.byte.toNat) ++
        " in position " ++ toString fault.position
    else
      "bytes in position " ++ toString fault.position ++ "-" ++
        toString (fault.position + fault.length - 1)
  "'utf-8' codec can't decode " ++ place ++ ": " ++ fault.reason.message

end Lox.Utf8
