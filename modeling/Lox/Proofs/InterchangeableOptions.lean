import Lox.Proofs.DocumentLines
import Lox.Proofs.RunContract
import Lox.Proofs.WrittenArguments

/-!
# Options from either place

A format and a prompt can be said on the command line or in the configuration file, and it makes no
difference where.  Any two texts can be written in both places, the one text that the command line
cannot hold apart, and what comes of resolving is the same: the same options, or the same complaint
about a format that is unknown.

Main results:

- Theorem `ofText?_configuration`: a written configuration file is read as the texts that it holds.
- Theorem `resolve_of_effective`: what comes of resolving is known by the values that count.
- Theorem `resolve_configured_eq_flagged`: texts in the configuration file and on the command line
  are as good as each other.
-/

namespace Lox

open CommandLine (Arguments Attachable Setting)

/-! ## Configuration files -/

/-- A configuration file that sets the format and the prompt. -/
def configuration (quoting : Toml.Quoting) (format prompt : String) : String :=
  String.ofList [Toml.header "output", quoting.entry "format" format, Toml.header "repl",
    quoting.entry "prompt" prompt].flatten

/-- The configuration that sets the format and the prompt. -/
def configurationTable (format prompt : String) : Toml.Table :=
  [("output", .table [("format", .string format)]), ("repl", .table [("prompt", .string prompt)])]

/-- A written configuration file is read as the texts that it holds. -/
theorem ofText?_configuration (quoting : Toml.Quoting) (format prompt : String) :
    Toml.Table.ofText? (configuration quoting format prompt) =
      some (configurationTable format prompt) := by
  have lines : List.Forall₂ Toml.IsLine
      [Toml.header "output", quoting.entry "format" format, Toml.header "repl",
        quoting.entry "prompt" prompt]
      [.openTable ["output"], .assign ["format"] (.string format), .openTable ["repl"],
        .assign ["prompt"] (.string prompt)] :=
    .cons (Toml.isLine_header (by decide)) <|
      .cons (quoting.isLine_entry (by decide) format) <|
      .cons (Toml.isLine_header (by decide)) <|
      .cons (quoting.isLine_entry (by decide) prompt) .nil
  have built : [Toml.Statement.openTable ["output"], .assign ["format"] (.string format),
      .openTable ["repl"], .assign ["prompt"] (.string prompt)].foldlM Toml.Document.carryOut?
        Toml.Document.empty =
      some ⟨configurationTable format prompt, ["repl"], [["repl"], ["output"]], [], []⟩ := rfl
  exact Toml.Table.ofText?_flatten lines built

/-! ## Resolving -/

namespace Options

/-- The file that may hold the configuration if no file is named. -/
def discovered (script : Option String) : Path :=
  configPath ⟨script, none, none, none⟩

/-- What comes of a script, a format and a prompt that are said as texts. -/
def ofTexts (script : Option String) (format prompt : String) : Except OptionsError Options :=
  match DumpFormat.parse? format with
  | none => .error (.unknownFormat (.text format))
  | some known => .ok ⟨script.bind pathOfText?, known, .text prompt⟩

/-- Where a configuration is loaded, what comes of resolving is known by the values that count. -/
theorem resolve_of_effective {arguments : Arguments} {found : Except Obstacle (List UInt8)}
    {config : Toml.Table} {format prompt : String}
    (loaded : loadConfig (configPath arguments) found = .ok config)
    (formatted : effectiveFormat arguments config = .text format)
    (prompted : effectivePrompt arguments config = .text prompt) :
    resolve arguments found = ofTexts arguments.script format prompt := by
  rw [resolve, loaded]
  dsimp only
  rw [formatted, prompted, parseFormat, formatOfValue?, ofTexts, scriptOf]
  cases DumpFormat.parse? format <;> rfl

/-- Texts in the configuration file count if nothing is said on the command line. -/
theorem resolve_configured (quoting : Toml.Quoting) (script : Option String)
    {format prompt : String} {tree : FileTree}
    (held : HoldsText tree (discovered script) (configuration quoting format prompt)) :
    resolve ⟨script, none, none, none⟩ (tree.find (discovered script)) =
      ofTexts script format prompt := by
  have loaded := loads_iff.1 (.held held (ofText?_configuration quoting format prompt))
  exact resolve_of_effective loaded rfl rfl

/-- Texts on the command line count. -/
theorem resolve_flagged (script : Option String) (format prompt : String) {tree : FileTree}
    (absent : tree.find (discovered script) = .error .absent) :
    resolve ⟨script, some (.text format), none, some (.text prompt)⟩
        (tree.find (discovered script)) =
      ofTexts script format prompt :=
  resolve_of_effective (loads_iff.1 (.absent absent)) (effectiveFormat_of_flag rfl _)
    (effectivePrompt_of_flag rfl _)

/-- A format and a prompt in the configuration file come to the same as on the command line, in
either order: the same options, or the same unknown format.  No command line is refused for what the
texts hold. -/
theorem resolve_configured_eq_flagged (quoting : Toml.Quoting) (script : Option String)
    {format prompt : Attachable} {choices : List (Setting × Attachable)}
    (order : choices.Perm [(.format, format), (.prompt, prompt)]) {configured bare : FileTree}
    (held : HoldsText configured (discovered script) (configuration quoting format prompt))
    (absent : bare.find (discovered script) = .error .absent) :
    ∃ plain flagged : Arguments,
      CommandLine.read (CommandLine.write [] script) = .ok plain ∧
        CommandLine.read (CommandLine.write choices script) = .ok flagged ∧
        resolve plain (configured.find (configPath plain)) =
          resolve flagged (bare.find (configPath flagged)) ∧
        resolve flagged (bare.find (configPath flagged)) = ofTexts script format prompt := by
  have latest : CommandLine.latest? choices =
      CommandLine.valuesOf (some format) none (some prompt) :=
    CommandLine.latest?_of_perm order
  have plain := CommandLine.read_write_eq [] script
  have flagged := CommandLine.read_write_eq choices script
  rw [latest] at flagged
  have fromFlags := resolve_flagged script format.1 prompt.1 absent
  exact ⟨_, _, plain, flagged, (resolve_configured quoting script held).trans fromFlags.symm,
    fromFlags⟩

/-- A prompt with a dash in front, an equals sign, a quote, a backslash and a newline. -/
theorem resolve_configured_eq_flagged_escapes :
    ∃ plain flagged : Arguments,
      CommandLine.read [] = .ok plain ∧
        CommandLine.read ["--prompt=-=\x22\\\n", "--format=json"] = .ok flagged ∧
        resolve plain (FileTree.find ⟨[⟨["lox.toml"], some (Utf8.encode
          "[output]\nformat = \x22json\x22\n[repl]\nprompt = \x22-=\\\x22\\\\\\u000A\x22\n")⟩], []⟩
          (configPath plain)) = .ok ⟨none, .json, .text "-=\x22\\\n"⟩ ∧
        resolve flagged (FileTree.find ⟨[], []⟩ (configPath flagged)) =
          .ok ⟨none, .json, .text "-=\x22\\\n"⟩ := by
  let format : Attachable := ⟨"json", by decide⟩
  let prompt : Attachable := ⟨"-=\x22\\\n", by decide⟩
  have place : discovered none = ⟨0, ["lox.toml"]⟩ := by decide +kernel
  have written : configuration .controls format prompt =
      "[output]\nformat = \x22json\x22\n[repl]\nprompt = \x22-=\\\x22\\\\\\u000A\x22\n" := by
    decide +kernel
  have held (text : String) :
      HoldsText ⟨[⟨["lox.toml"], some (Utf8.encode text)⟩], []⟩ (discovered none) text := by
    rw [HoldsText, place]
    rfl
  have absent : FileTree.find ⟨[], []⟩ (discovered none) = .error .absent := by
    rw [place]
    rfl
  have order := List.Perm.swap (Setting.format, format) (Setting.prompt, prompt) []
  obtain ⟨plain, flagged, hplain, hflagged, same, outcome⟩ :=
    resolve_configured_eq_flagged .controls none order (held _) absent
  rw [written] at same
  exact ⟨plain, flagged, hplain, hflagged, same.trans outcome, outcome⟩

end Options

end Lox
