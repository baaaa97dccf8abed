import Lox.Proofs.RunContract
import Mathlib.Order.Bounds.Defs

/-!
# The bytes of a script

A script is scanned as the text that its bytes are the encoding of, with nothing added, left out or
changed but one byte order mark in front.  Bytes that are no text are refused, and the message tells
how far they are a text.  What is well formed is said by the table of byte sequences alone.

A byte order mark makes no difference to a script, unless the text of the script begins with one
itself.  It makes one to a configuration, which cannot begin with a mark.  So a script that is the
configuration as well has none where the options are known.

Main results:

- Theorem `Utf8.isWellFormed_iff`: bytes are well formed exactly if they are the encoding of a text.
- Theorem `Utf8.tellsFault_of_decode`: a message about bytes that are no text tells the length of
  the longest front that is well formed.
- Theorem `FileTree.find_withBytes`: files are told apart when the bytes of one of them are
  replaced.
- Theorem `Toml.Table.ofText?_mark`: no configuration begins with a byte order mark.
- Theorem `run_of_script`: what comes of the bytes of a script.
-/

namespace Lox

namespace Utf8

/-! ## Well-formed bytes -/

/-- Bytes are well formed if they are sequences of the table one behind the other. -/
inductive IsWellFormed : List UInt8 → Prop
  | nil : IsWellFormed []
  | append {sequence rest : List UInt8} (first : IsSequence sequence)
      (others : IsWellFormed rest) : IsWellFormed (sequence ++ rest)

/-- Bytes are well formed exactly if they are the encoding of a text. -/
theorem isWellFormed_iff {bytes : List UInt8} :
    IsWellFormed bytes ↔ ∃ text, encode text = bytes := by
  constructor
  · intro h
    induction h with
    | nil => exact ⟨"", rfl⟩
    | @append sequence rest first _ ih =>
        obtain ⟨text, rfl⟩ := ih
        cases sequence with
        | nil => cases first
        | cons lead trail =>
            refine ⟨String.ofList (character lead trail :: text.toList), ?_⟩
            rw [encode, String.toList_ofList, List.flatMap_cons, utf8EncodeChar_character first]
            rfl
  · rintro ⟨text, rfl⟩
    unfold encode
    induction text.toList with
    | nil => exact .nil
    | cons c rest ih =>
        rw [List.flatMap_cons]
        exact .append (isSequence_utf8EncodeChar c) ih

/-- Bytes are refused exactly if they are not well formed. -/
theorem exists_decode_eq_error_iff_not {bytes : List UInt8} :
    (∃ fault, decode bytes = .error fault) ↔ ¬IsWellFormed bytes := by
  rw [exists_decode_eq_error_iff, isWellFormed_iff, not_exists]

/-! ## The place of a fault -/

/-- The lengths of the fronts of bytes that are well formed. -/
def intactLengths (bytes : List UInt8) : Set ℕ :=
  {length | length ≤ bytes.length ∧ IsWellFormed (bytes.take length)}

/-- No more bytes belong to a lead byte than there are behind it. -/
theorem first_le_length (lead : UInt8) (bytes : List UInt8) :
    (first lead bytes).1 ≤ bytes.length := by
  unfold first
  split
  · exact Nat.zero_le _
  · next ranges _ =>
    have found := trailLength_le_bytes ranges bytes
    dsimp only
    split
    · exact found
    · split
      · exact found
      · exact found

/-- Bytes are decoded up to a fault, which blames bytes that stand there. -/
theorem exists_of_decodeFrom_error {position : ℕ} {decoded : List Char} {bytes : List UInt8}
    {fault : Fault} (h : decodeFrom position decoded bytes = .error fault) :
    ∃ (text : List Char) (behind : List UInt8),
      bytes = text.flatMap String.utf8EncodeChar ++ fault.byte :: behind ∧
        fault.position = position + (text.flatMap String.utf8EncodeChar).length ∧
        1 ≤ fault.length ∧ fault.length ≤ behind.length + 1 := by
  fun_induction decodeFrom position decoded bytes with
  | case1 => cases h
  | case2 position decoded lead bytes found c hfirst ih =>
      obtain ⟨text, behind, hbytes, hposition, hlength⟩ := ih h
      obtain ⟨hsequence, rfl⟩ := isSequence_of_first hfirst
      have taken := first_le_length lead bytes
      rw [hfirst] at taken
      refine ⟨character lead (bytes.take found) :: text, behind, ?_, ?_, hlength⟩
      · rw [List.flatMap_cons, utf8EncodeChar_character hsequence, List.append_assoc, ← hbytes,
          List.cons_append, List.take_append_drop]
      · rw [hposition, List.flatMap_cons, utf8EncodeChar_character hsequence, List.length_append,
          List.length_cons, List.length_take, Nat.min_eq_left taken]
        omega
  | case3 position decoded lead bytes found reason hfirst =>
      cases h
      have taken := first_le_length lead bytes
      rw [hfirst] at taken
      exact ⟨[], bytes, rfl, rfl, Nat.le_add_right 1 found, by dsimp only at taken ⊢; omega⟩

/-- A fault is found from the start on. -/
theorem decodeFrom_of_decode_error {bytes : List UInt8} {fault : Fault}
    (h : decode bytes = .error fault) : decodeFrom 0 [] bytes = .error fault := by
  unfold decode at h
  split at h
  · cases h
  · next hfault =>
    cases h
    exact hfault

/-- The position of a fault is the length of the longest front that is well formed. -/
theorem isGreatest_position {bytes : List UInt8} {fault : Fault} (h : decode bytes = .error fault) :
    IsGreatest (intactLengths bytes) fault.position := by
  have failed := decodeFrom_of_decode_error h
  constructor
  · obtain ⟨text, behind, rfl, hposition, -⟩ := exists_of_decodeFrom_error failed
    rw [Nat.zero_add] at hposition
    refine ⟨by simp [hposition], isWellFormed_iff.2 ⟨String.ofList text, ?_⟩⟩
    rw [hposition, List.take_left, encode, String.toList_ofList]
  · rintro length ⟨hlength, hfront⟩
    obtain ⟨text, htext⟩ := isWellFormed_iff.1 hfront
    -- decoding takes the whole front before it can fail
    rw [← List.take_append_drop length bytes, ← htext, encode, decodeFrom_encode_append] at failed
    obtain ⟨_, _, -, hposition, -⟩ := exists_of_decodeFrom_error failed
    have front : (text.toList.flatMap String.utf8EncodeChar).length = length := by
      rw [← encode, htext, List.length_take, Nat.min_eq_left hlength]
    omega

/-- A message about bytes that are no text: it tells the first of the faulty bytes if there is one
only, and otherwise their positions.  They begin behind the longest front that is well formed. -/
def TellsFault (bytes : List UInt8) (message : String) : Prop :=
  ∃ (first last : ℕ) (byte : UInt8) (reason : Reason),
    IsGreatest (intactLengths bytes) first ∧ first ≤ last ∧ last < bytes.length ∧
      bytes[first]? = some byte ∧
      message = "'utf-8' codec can't decode " ++
        (if last = first then
          "byte 0x" ++ String.ofList (Numeral.padded 16 2 byte.toNat) ++ " in position " ++
            toString first
        else "bytes in position " ++ toString first ++ "-" ++ toString last) ++
        ": " ++ reason.message

/-- The message of a fault tells the length of the longest front that is well formed. -/
theorem tellsFault_of_decode {bytes : List UInt8} {fault : Fault}
    (h : decode bytes = .error fault) : TellsFault bytes fault.message := by
  have greatest := isGreatest_position h
  obtain ⟨text, behind, hbytes, hposition, hpositive, hlength⟩ :=
    exists_of_decodeFrom_error (decodeFrom_of_decode_error h)
  rw [Nat.zero_add] at hposition
  refine ⟨fault.position, fault.position + fault.length - 1, fault.byte, fault.reason, greatest,
    by omega, ?_, ?_, ?_⟩
  · rw [hbytes, List.length_append, List.length_cons, ← hposition]
    omega
  · rw [hbytes, hposition, List.getElem?_append_right (Nat.le_refl _), Nat.sub_self,
      List.getElem?_cons_zero]
  · unfold Fault.message
    by_cases alone : fault.length = 1
    · have last : fault.position + fault.length - 1 = fault.position := by omega
      rw [if_pos alone, if_pos last]
    · have last : fault.position + fault.length - 1 ≠ fault.position := by omega
      rw [if_neg alone, if_neg last]

/-! ## Byte order marks -/

/-- The bytes of a byte order mark. -/
def mark : List UInt8 :=
  [0xEF, 0xBB, 0xBF]

/-- The bytes of a mark are the encoding of one character. -/
theorem utf8EncodeChar_mark : String.utf8EncodeChar '\uFEFF' = mark := by
  decide +kernel

/-- A mark in front of a text is encoded as its bytes. -/
theorem encode_mark (text : String) :
    encode (String.ofList ('\uFEFF' :: text.toList)) = mark ++ encode text := by
  rw [encode, String.toList_ofList, List.flatMap_cons, utf8EncodeChar_mark, encode]

/-- A mark in front is left out. -/
theorem dropMark_mark (bytes : List UInt8) : dropMark (mark ++ bytes) = bytes := rfl

/-- Nothing is left out of a text that does not begin with a mark. -/
theorem dropMark_encode {text : String} (h : text.toList.head? ≠ some '\uFEFF') :
    dropMark (encode text) = encode text := by
  unfold dropMark
  split
  · next rest hbytes =>
    have decoded := decodeFrom_encode 0 [] text.toList
    have marked := decodeFrom_encode_append 0 [] ['\uFEFF'] rest
    rw [List.flatMap_singleton, utf8EncodeChar_mark] at marked
    rw [← encode, hbytes] at decoded
    obtain ⟨behind, hbehind, -⟩ := decodeFrom_sound (marked.symm.trans decoded)
    exact absurd (congrArg List.head? hbehind) h
  · rfl

end Utf8

/-! ## Replaced bytes -/

/-- The entry with other bytes if it is a file of some name. -/
def FileEntry.rewritten (parts : List String) (bytes : List UInt8) (entry : FileEntry) :
    FileEntry :=
  if entry.parts = parts then { entry with contents := entry.contents.map fun _ => bytes }
  else entry

/-- Other bytes leave an entry its name. -/
@[simp] theorem FileEntry.parts_rewritten (parts : List String) (bytes : List UInt8)
    (entry : FileEntry) : (entry.rewritten parts bytes).parts = entry.parts := by
  unfold rewritten
  split
  · rfl
  · rfl

/-- Other bytes make no file a directory. -/
@[simp] theorem FileEntry.isNone_contents_rewritten (parts : List String) (bytes : List UInt8)
    (entry : FileEntry) :
    (entry.rewritten parts bytes).contents.isNone = entry.contents.isNone := by
  unfold rewritten
  split
  · exact Option.isNone_map
  · rfl

namespace FileTree

/-- The tree with other bytes in the files of some name. -/
def rewritten (tree : FileTree) (parts : List String) (bytes : List UInt8) : FileTree :=
  { tree with entries := tree.entries.map (FileEntry.rewritten parts bytes) }

/-- The tree with other bytes in the file at a path. -/
def withBytes (tree : FileTree) (path : Path) (bytes : List UInt8) : FileTree :=
  match tree.walk path with
  | .ok place => tree.rewritten place bytes
  | .error _ => tree

section

variable (tree : FileTree) (parts : List String) (bytes : List UInt8)

/-- Other bytes make no other directories. -/
theorem isDirectory_rewritten (directory : List String) :
    (tree.rewritten parts bytes).isDirectory directory = tree.isDirectory directory := by
  simp [isDirectory, rewritten, Function.comp_def]

/-- Other bytes do not change where a path leads. -/
theorem walk_rewritten (path : Path) :
    (tree.rewritten parts bytes).walk path = tree.walk path := by
  have same : (tree.rewritten parts bytes).step = tree.step := by
    funext place part
    simp only [step, isDirectory_rewritten]
  rw [walk, walk, same]
  rfl

/-- The files of the name have the other bytes, all others the same. -/
theorem bytesAt_rewritten (place : List String) :
    (tree.rewritten parts bytes).bytesAt place =
      if place = parts then (tree.bytesAt place).map fun _ => bytes else tree.bytesAt place := by
  have looked : (tree.rewritten parts bytes).entries.find? (·.parts == place) =
      (tree.entries.find? (·.parts == place)).map (FileEntry.rewritten parts bytes) := by
    simp only [rewritten, List.find?_map, Function.comp_def, FileEntry.parts_rewritten]
  rw [bytesAt, bytesAt, looked]
  cases hentry : tree.entries.find? (·.parts == place) with
  | none => simp [Except.map]
  | some entry =>
      obtain rfl : entry.parts = place := by simpa using List.find?_some hentry
      by_cases hname : entry.parts = parts
      · cases hcontents : entry.contents with
        | none => simp [FileEntry.rewritten, hname, hcontents, Except.map]
        | some old => simp [FileEntry.rewritten, hname, hcontents, Except.map]
      · simp [FileEntry.rewritten, hname]

/-- Looking up a path finds the other bytes where it leads to the files of the name. -/
theorem find_rewritten (path : Path) :
    (tree.rewritten parts bytes).find path =
      if tree.walk path = .ok parts then (tree.find path).map fun _ => bytes
      else tree.find path := by
  unfold find
  dsimp only
  rw [walk_rewritten]
  split
  · exact (ite_self _).symm
  split
  · exact (ite_self _).symm
  cases tree.walk path with
  | error obstacle => simp
  | ok place => simp [bytesAt_rewritten]

end

/-- A file is found by the place that its path leads to. -/
theorem exists_walk_of_find {tree : FileTree} {path : Path} {bytes : List UInt8}
    (h : tree.find path = .ok bytes) : ∃ place, tree.walk path = .ok place := by
  unfold find at h
  dsimp only at h
  split at h
  · cases h
  split at h
  · cases h
  split at h
  · cases h
  · next place hplace => exact ⟨place, hplace⟩

/-- The file at a path has the bytes that are put there. -/
theorem find_withBytes_self {tree : FileTree} {path : Path} {old : List UInt8}
    (found : tree.find path = .ok old) (bytes : List UInt8) :
    (tree.withBytes path bytes).find path = .ok bytes := by
  obtain ⟨place, hwalk⟩ := exists_walk_of_find found
  rw [withBytes, hwalk]
  dsimp only
  rw [find_rewritten, if_pos hwalk, found]
  rfl

/-- Any path either leads to the file whose bytes are replaced, or it does not matter by what they
are replaced. -/
theorem find_withBytes {tree : FileTree} {path : Path} {old : List UInt8}
    (found : tree.find path = .ok old) (other : Path) :
    (∀ bytes, (tree.withBytes path bytes).find other = tree.find other) ∨
      ∀ bytes, (tree.withBytes path bytes).find other = .ok bytes := by
  obtain ⟨place, hwalk⟩ := exists_walk_of_find found
  have replaced (bytes : List UInt8) := tree.find_rewritten place bytes other
  simp only [withBytes, hwalk, replaced]
  split
  · cases tree.find other with
    | error obstacle => exact .inl fun _ => rfl
    | ok bytes => exact .inr fun _ => rfl
  · exact .inl fun _ => rfl

end FileTree

/-! ## Configurations -/

/-- No statement begins with a byte order mark. -/
theorem Toml.statements?_mark (rest : List Char) : statements? ('\uFEFF' :: rest) = none := by
  have bare : isBareKeyChar '\uFEFF' = false := by decide +kernel
  have unnamed : name? ('\uFEFF' :: rest) = none := by
    simp [name?, bare, lineString?]
  have unkeyed : key? ('\uFEFF' :: rest) = none := by
    rw [key?, unnamed]
  have first : skipBlank ('\uFEFF' :: rest) = '\uFEFF' :: rest := by
    simp [skipBlank, isBlank]
  have refused : line? ('\uFEFF' :: rest) = none := by
    simp [line?, first, statement?, unkeyed]
  rw [statements?, refused]

/-- No configuration begins with a byte order mark. -/
theorem Toml.Table.ofText?_mark (text : List Char) :
    Toml.Table.ofText? (String.ofList ('\uFEFF' :: text)) = none := by
  have joined : joinLineEnds ('\uFEFF' :: text) = '\uFEFF' :: joinLineEnds text := by
    simp [joinLineEnds]
  rw [ofText?, String.toList_ofList, joined, statements?_mark]
  rfl

/-- A configuration file that begins with a byte order mark cannot be loaded. -/
theorem loadConfig_mark (path : Path) (text : String) :
    loadConfig path (.ok (Utf8.mark ++ Utf8.encode text)) = .error .malformedConfig := by
  rw [← Utf8.encode_mark, loadConfig, Utf8.decode_encode]
  dsimp only
  rw [Toml.Table.ofText?_mark]

/-! ## Scripts -/

section

variable {arguments : List String} {read : CommandLine.Arguments} {options : Options} {path : Path}
  {tree : FileTree}

/-- The script is known from the command line alone. -/
theorem script_of_resolve {found : Except Obstacle (List UInt8)}
    (resolved : Options.resolve read found = .ok options) :
    options.script = Options.scriptOf read := by
  unfold Options.resolve at resolved
  split at resolved
  · cases resolved
  split at resolved
  · cases resolved
  · cases resolved
    rfl

/-- A run whose options are known goes on with the script. -/
theorem run_eq_runScript (accepted : CommandLine.read arguments = .ok read)
    (resolved : Options.resolve read (tree.find (Options.configPath read)) = .ok options)
    (script : options.script = some path) (input : String) :
    run arguments tree input =
      runScript options.format path (tree.find path) (inputLines input).length := by
  simp only [run, accepted, resolved, script]

/-- A script is scanned as the text that its bytes are the encoding of. -/
theorem runScript_of_encode {bytes : List UInt8} {source : String}
    (h : Utf8.encode source = Utf8.dropMark bytes) (format : DumpFormat) (path : Path)
    (unread : ℕ) :
    runScript format path (.ok bytes) unread =
      .ok (.ofOutcome (printScan format (.quoting source path.toString) source) unread) := by
  simp only [runScript, ← h, Utf8.decode_encode]

/-- A script that is no text is reported. -/
theorem runScript_of_decode_error {bytes : List UInt8} {fault : Utf8.Fault}
    (h : Utf8.decode (Utf8.dropMark bytes) = .error fault) (format : DumpFormat) (path : Path)
    (unread : ℕ) :
    runScript format path (.ok bytes) unread =
      .ok (.failure ("cannot read " ++ path.toString ++ ": " ++ fault.message) unread) := by
  simp only [runScript, h]

/-- A mark in front of the text of a script, in a tree where the options are known with it, makes no
difference to a run. -/
theorem run_withBytes_mark {old : List UInt8} {text : String}
    (accepted : CommandLine.read arguments = .ok read) (found : tree.find path = .ok old)
    (script : options.script = some path) (unmarked : text.toList.head? ≠ some '\uFEFF')
    (resolved : Options.resolve read ((tree.withBytes path (Utf8.mark ++ Utf8.encode text)).find
      (Options.configPath read)) = .ok options) (input : String) :
    run arguments (tree.withBytes path (Utf8.encode text)) input =
      run arguments (tree.withBytes path (Utf8.mark ++ Utf8.encode text)) input := by
  have plain : Options.resolve read ((tree.withBytes path (Utf8.encode text)).find
      (Options.configPath read)) = .ok options := by
    rcases FileTree.find_withBytes found (Options.configPath read) with same | replaced
    · rw [same] at resolved ⊢
      exact resolved
    · -- the script would be the configuration too, which cannot begin with a mark
      rw [replaced, Options.resolve_of_unreadable (loadConfig_mark _ text)] at resolved
      cases resolved
  rw [run_eq_runScript accepted plain script, run_eq_runScript accepted resolved script,
    FileTree.find_withBytes_self found, FileTree.find_withBytes_self found,
    runScript_of_encode (Utf8.dropMark_encode unmarked).symm,
    runScript_of_encode (Utf8.dropMark_mark _).symm]

/-- What comes of the bytes of a script where the options are known, behind one byte order mark.  If
they are well formed, the script is scanned as the one text that they are the encoding of.  If they
are not, the run says so on the error channel, with the length of the longest front that is well
formed, and does nothing else.  If the options are known with a byte order mark in front of a text
that does not begin with one, the run is the same without the mark. -/
theorem run_of_script {bytes : List UInt8} (accepted : CommandLine.read arguments = .ok read)
    (resolved : Options.resolve read (tree.find (Options.configPath read)) = .ok options)
    (script : options.script = some path) (found : tree.find path = .ok bytes) (input : String) :
    (Utf8.IsWellFormed (Utf8.dropMark bytes) → ∃ source,
        Utf8.encode source = Utf8.dropMark bytes ∧
        run arguments tree input = .ok (.ofOutcome
          (printScan options.format (.quoting source path.toString) source)
          (inputLines input).length)) ∧
      (¬Utf8.IsWellFormed (Utf8.dropMark bytes) → ∃ message result,
        Utf8.TellsFault (Utf8.dropMark bytes) message ∧ run arguments tree input = .ok result ∧
        result.ending = .returned .badArguments ∧ result.transcript.on .output = "" ∧
        result.transcript.on .errors =
          "error: cannot read " ++ path.toString ++ ": " ++ message ++ "\n") ∧
      ∀ (text : String) (known : Options), text.toList.head? ≠ some '\uFEFF' →
        Options.resolve read ((tree.withBytes path (Utf8.mark ++ Utf8.encode text)).find
          (Options.configPath read)) = .ok known →
        run arguments (tree.withBytes path (Utf8.encode text)) input =
          run arguments (tree.withBytes path (Utf8.mark ++ Utf8.encode text)) input := by
  have carriedOut := run_eq_runScript accepted resolved script input
  rw [found] at carriedOut
  refine ⟨?_, ?_, ?_⟩
  · intro wellFormed
    obtain ⟨source, hsource⟩ := Utf8.isWellFormed_iff.1 wellFormed
    exact ⟨source, hsource, by rw [carriedOut, runScript_of_encode hsource]⟩
  · intro malformed
    obtain ⟨fault, hfault⟩ := Utf8.exists_decode_eq_error_iff_not.2 malformed
    rw [runScript_of_decode_error hfault] at carriedOut
    refine ⟨fault.message, _, Utf8.tellsFault_of_decode hfault, carriedOut, rfl, rfl, ?_⟩
    have joined : "error: " ++ "cannot read " = "error: cannot read " := by decide
    simp only [Run.failure, Transcript.on_cons_self, Transcript.on_nil, String.append_empty,
      ← joined, String.append_assoc]
  · intro text known unmarked marked
    have same : known.script = some path := by
      rw [script_of_resolve marked, ← script_of_resolve resolved, script]
    exact run_withBytes_mark accepted found same unmarked marked input

/-- A script that breaks off inside a character behind a mark, and a script that does not, somewhere
else than in the current directory. -/
theorem run_of_script_truncated :
    let script : Path := ⟨1, ["home", "a.lox"]⟩
    let tree : FileTree :=
      ⟨[⟨["home", "a.lox"], some [0xEF, 0xBB, 0xBF, 0x31, 0xE2, 0x82]⟩], ["tmp"]⟩
    (∃ message result, Utf8.TellsFault [0x31, 0xE2, 0x82] message ∧
        run ["/home/a.lox"] tree "" = .ok result ∧ result.ending = .returned .badArguments ∧
        result.transcript.on .output = "" ∧
        result.transcript.on .errors =
          "error: cannot read " ++ script.toString ++ ": " ++ message ++ "\n") ∧
      run ["/home/a.lox"] (tree.withBytes script (Utf8.encode "1")) "" =
        run ["/home/a.lox"] (tree.withBytes script (Utf8.mark ++ Utf8.encode "1")) "" := by
  intro script tree
  have accepted :
      CommandLine.read ["/home/a.lox"] = .ok ⟨some "/home/a.lox", none, none, none⟩ := by
    decide +kernel
  have resolved : Options.resolve ⟨some "/home/a.lox", none, none, none⟩
      (tree.find ⟨1, ["home", "lox.toml"]⟩) = .ok ⟨some script, .text, .text "> "⟩ := by
    decide +kernel
  have found : tree.find script = .ok [0xEF, 0xBB, 0xBF, 0x31, 0xE2, 0x82] := by decide +kernel
  have marked : Options.resolve ⟨some "/home/a.lox", none, none, none⟩
      ((tree.withBytes script (Utf8.mark ++ Utf8.encode "1")).find ⟨1, ["home", "lox.toml"]⟩) =
        .ok ⟨some script, .text, .text "> "⟩ := by decide +kernel
  have malformed : ¬Utf8.IsWellFormed [0x31, 0xE2, 0x82] :=
    Utf8.exists_decode_eq_error_iff_not.1 ⟨⟨1, 2, 0xE2, .endOfData⟩, by decide +kernel⟩
  obtain ⟨-, refused, alike⟩ := run_of_script accepted resolved rfl found ""
  exact ⟨refused malformed, alike "1" _ (by decide) marked⟩

end

end Lox
