import Lox.Program
import Lox.Proofs.SessionCourse
import Lox.Proofs.Utf8Text

/-!
# What a run promises

A run with an accepted command line has ten ways to go, and which one it goes is said by the
command line, the configuration file and the script.  What it returns, writes and reads is derived
from these ways.

The exit code for bad arguments stands for misuse: a configuration that cannot be used, an unknown
format, or a script that is not there or no text.  Every other run does its work, and its exit code
tells whether anything has been reported.

Three faults are not reported.  They break the program down with nothing returned: a configuration
file that is no text, a session without a prompt, and a script name that the system refuses.

Main results:

- Theorem `run_takesCourse`: an accepted command line is carried out in one of ten ways.
- Theorem `run_fulfils_contract`: what is returned and written, and what is left unread, by a run
  that returns.
- Theorem `run_returns_or_breaks_down`: a run returns unless one of three faults breaks it down.
-/

namespace Lox

/-! ## Courses -/

/-- A file at a path holds a text. -/
def HoldsText (tree : FileTree) (path : Path) (text : String) : Prop :=
  tree.find path = .ok (Utf8.encode text)

/-- What comes of loading the configuration from the file at a path: what the file holds, nothing if
there is no file, or an error if the file is no text or no document or its name is refused. -/
inductive Loads (tree : FileTree) (path : Path) : Except OptionsError Toml.Table → Prop
  | absent (absent : tree.find path = .error .absent) : Loads tree path (.ok [])
  | held {text : String} {config : Toml.Table} (found : HoldsText tree path text)
      (read : Toml.Table.ofText? text = some config) : Loads tree path (.ok config)
  | malformed {text : String} (found : HoldsText tree path text)
      (malformed : Toml.Table.ofText? text = none) : Loads tree path (.error .malformedConfig)
  | undecodable {bytes : List UInt8} {fault : Utf8.Fault} (found : tree.find path = .ok bytes)
      (undecodable : Utf8.decode bytes = .error fault) :
      Loads tree path (.error (.undecodableConfig fault))
  | refused (refused : tree.find path = .error .nameTooLong) :
      Loads tree path (.error (.configNameTooLong path))

/-- The configuration is what the file holds, or nothing if there is no file. -/
def IsConfiguration (read : CommandLine.Arguments) (tree : FileTree) (config : Toml.Table) : Prop :=
  (∃ text, HoldsText tree (Options.configPath read) text ∧
      Toml.Table.ofText? text = some config) ∨
    (∀ bytes, tree.find (Options.configPath read) ≠ .ok bytes) ∧ config = []

/-- The configuration has been read, with no name refused. -/
structure IsLoaded (read : CommandLine.Arguments) (tree : FileTree) (config : Toml.Table) :
    Prop where
  configuration : IsConfiguration read tree config
  accepted : tree.find (Options.configPath read) ≠ .error .nameTooLong

/-- The options under which a run does its work. -/
structure IsResolved (read : CommandLine.Arguments) (tree : FileTree) (config : Toml.Table)
    (format : DumpFormat) : Prop where
  loaded : IsLoaded read tree config
  known : Options.effectiveFormat read config = .text format.name

/-- The ways that a run with an accepted command line can go, each with what comes of it. -/
inductive TakesCourse (read : CommandLine.Arguments) (tree : FileTree) (input : String) :
    Except Breakdown Run → Prop
  | undecodableConfig {bytes : List UInt8} {fault : Utf8.Fault}
      (found : tree.find (Options.configPath read) = .ok bytes)
      (undecodable : Utf8.decode bytes = .error fault) :
      TakesCourse read tree input (.error (.undecodableConfig fault))
  | malformedConfig {text : String} (found : HoldsText tree (Options.configPath read) text)
      (malformed : Toml.Table.ofText? text = none) (message : String) :
      TakesCourse read tree input (.ok (.failure message (inputLines input).length))
  | refusedConfig (refused : tree.find (Options.configPath read) = .error .nameTooLong)
      (message : String) :
      TakesCourse read tree input (.ok (.failure message (inputLines input).length))
  | unknownFormat {config : Toml.Table} (loaded : IsLoaded read tree config)
      (unknown : ∀ format : DumpFormat,
        Options.effectiveFormat read config ≠ .text format.name) (message : String) :
      TakesCourse read tree input (.ok (.failure message (inputLines input).length))
  | refusedScript {config : Toml.Table} {format : DumpFormat} {path : Path}
      (resolved : IsResolved read tree config format) (script : Options.scriptOf read = some path)
      (refused : tree.find path = .error .nameTooLong) :
      TakesCourse read tree input (.error (.scriptNameTooLong path))
  | absentScript {config : Toml.Table} {format : DumpFormat} {path : Path}
      (resolved : IsResolved read tree config format) (script : Options.scriptOf read = some path)
      (absent : tree.find path = .error .absent) (message : String) :
      TakesCourse read tree input (.ok (.failure message (inputLines input).length))
  | undecodableScript {config : Toml.Table} {format : DumpFormat} {path : Path}
      {bytes : List UInt8} (resolved : IsResolved read tree config format)
      (script : Options.scriptOf read = some path) (found : tree.find path = .ok bytes)
      (undecodable : ∀ source, Utf8.encode source ≠ Utf8.dropMark bytes) (message : String) :
      TakesCourse read tree input (.ok (.failure message (inputLines input).length))
  | scan {config : Toml.Table} {format : DumpFormat} {path : Path} {bytes : List UInt8}
      {source : String} (resolved : IsResolved read tree config format)
      (script : Options.scriptOf read = some path) (found : tree.find path = .ok bytes)
      (decoded : Utf8.encode source = Utf8.dropMark bytes) :
      TakesCourse read tree input (.ok (.ofOutcome
        (printScan format (.quoting source path.toString) source) (inputLines input).length))
  | withdrawnPrompt {config : Toml.Table} {format : DumpFormat}
      (resolved : IsResolved read tree config format) (unscripted : Options.scriptOf read = none)
      (withdrawn : Options.effectivePrompt read config = .withdrawn) :
      TakesCourse read tree input (.error .withdrawnPrompt)
  | session {config : Toml.Table} {format : DumpFormat} {prompt : String}
      (resolved : IsResolved read tree config format) (unscripted : Options.scriptOf read = none)
      (prompted : Options.effectivePrompt read config = .text prompt) :
      TakesCourse read tree input
        (let held := session ⟨format, prompt, .plain⟩ .endOfInput (inputLines input)
        .ok (.ofOutcome held.outcome held.unread))

/-- Loading a configuration has one outcome. -/
theorem loads_iff {tree : FileTree} {path : Path} {outcome : Except OptionsError Toml.Table} :
    Loads tree path outcome ↔ loadConfig path (tree.find path) = outcome := by
  constructor
  · intro h
    cases h with
    | absent absent => rw [absent, loadConfig]
    | held found read =>
        unfold HoldsText at found
        simp only [found, loadConfig, Utf8.decode_encode, read]
    | malformed found malformed =>
        unfold HoldsText at found
        simp only [found, loadConfig, Utf8.decode_encode, malformed]
    | undecodable found undecodable => simp only [found, loadConfig, undecodable]
    | refused refused => rw [refused, loadConfig]
  · rintro rfl
    rcases hfound : tree.find path with (_ | _) | bytes
    · exact .absent hfound
    · exact .refused hfound
    · cases hdecoded : Utf8.decode bytes with
      | error fault =>
          simp only [loadConfig, hdecoded]
          exact .undecodable hfound hdecoded
      | ok text =>
          have found : HoldsText tree path text := by
            rw [HoldsText, hfound, Utf8.decode_eq_ok_iff.1 hdecoded]
          cases hread : Toml.Table.ofText? text with
          | none =>
              simp only [loadConfig, hdecoded, hread]
              exact .malformed found hread
          | some config =>
              simp only [loadConfig, hdecoded, hread]
              exact .held found hread

/-- A configuration that has been loaded is the one that counts. -/
theorem isLoaded_of_loadConfig {read : CommandLine.Arguments} {tree : FileTree}
    {config : Toml.Table}
    (h : loadConfig (Options.configPath read) (tree.find (Options.configPath read)) = .ok config) :
    IsLoaded read tree config := by
  rw [← loads_iff] at h
  cases h with
  | absent absent => exact ⟨.inr ⟨by simp [absent], rfl⟩, by simp [absent]⟩
  | held found hread =>
      refine ⟨.inl ⟨_, found, hread⟩, fun refused => ?_⟩
      cases found.symm.trans refused

/-- A value names a format exactly if it is the name. -/
theorem formatOfValue?_eq_some_iff {value : CommandLine.OptionValue} {format : DumpFormat} :
    Options.formatOfValue? value = some format ↔ value = .text format.name := by
  constructor
  · cases value with
    | text name =>
        intro h
        have named := List.find?_some (p := fun other => DumpFormat.name other == name) h
        exact congrArg CommandLine.OptionValue.text (eq_of_beq named).symm
    | withdrawn => intro h; cases h
  · rintro rfl
    exact DumpFormat.parse?_name format

/-- A value names no format exactly if it is the name of none. -/
theorem formatOfValue?_eq_none_iff {value : CommandLine.OptionValue} :
    Options.formatOfValue? value = none ↔ ∀ format : DumpFormat, value ≠ .text format.name := by
  simp [Option.eq_none_iff_forall_ne_some, formatOfValue?_eq_some_iff]

/-- A configuration that cannot be loaded ends a run or breaks it down. -/
theorem takesCourse_of_loadConfig {read : CommandLine.Arguments} {tree : FileTree}
    {input : String} {error : OptionsError}
    (h : loadConfig (Options.configPath read) (tree.find (Options.configPath read)) =
      .error error) :
    TakesCourse read tree input (runOptionsError (inputLines input).length error) := by
  rw [← loads_iff] at h
  cases h with
  | malformed found malformed => exact .malformedConfig found malformed _
  | undecodable found undecodable => exact .undecodableConfig found undecodable
  | refused refused => exact .refusedConfig refused _

/-- A script is scanned, or it is not there, no text or refused by its name. -/
theorem takesCourse_runScript {read : CommandLine.Arguments} {tree : FileTree} {input : String}
    {config : Toml.Table} {format : DumpFormat} {path : Path}
    (resolved : IsResolved read tree config format) (script : Options.scriptOf read = some path) :
    TakesCourse read tree input
      (runScript format path (tree.find path) (inputLines input).length) := by
  unfold runScript
  split
  · next refused => exact .refusedScript resolved script refused
  · next absent => exact .absentScript resolved script absent _
  · next bytes found =>
    split
    · next fault undecodable =>
      exact .undecodableScript resolved script found
        (Utf8.exists_decode_eq_error_iff.1 ⟨fault, undecodable⟩) _
    · next source decoded =>
      exact .scan resolved script found (Utf8.decode_eq_ok_iff.1 decoded)

/-- A session is held unless its prompt has been withdrawn. -/
theorem takesCourse_runSession {read : CommandLine.Arguments} {tree : FileTree} {input : String}
    {config : Toml.Table} {format : DumpFormat} (resolved : IsResolved read tree config format)
    (unscripted : Options.scriptOf read = none) :
    TakesCourse read tree input
      (runSession ⟨none, format, Options.effectivePrompt read config⟩ (inputLines input)) := by
  cases hprompt : Options.effectivePrompt read config with
  | text prompt => exact .session resolved unscripted hprompt
  | withdrawn => exact .withdrawnPrompt resolved unscripted hprompt

/-- An accepted command line is carried out in one of ten ways. -/
theorem run_takesCourse {arguments : List String} {read : CommandLine.Arguments}
    (accepted : CommandLine.read arguments = .ok read) (tree : FileTree) (input : String) :
    TakesCourse read tree input (run arguments tree input) := by
  simp only [run, accepted, Options.resolve]
  cases hconfig : loadConfig (Options.configPath read) (tree.find (Options.configPath read)) with
  | error error => exact takesCourse_of_loadConfig hconfig
  | ok config =>
      have loaded := isLoaded_of_loadConfig hconfig
      cases hformat : Options.formatOfValue? (Options.effectiveFormat read config) with
      | none =>
          simp only [Options.parseFormat, hformat, runOptionsError]
          exact .unknownFormat loaded (formatOfValue?_eq_none_iff.1 hformat) _
      | some format =>
          have resolved : IsResolved read tree config format :=
            ⟨loaded, formatOfValue?_eq_some_iff.1 hformat⟩
          simp only [Options.parseFormat, hformat]
          cases hscript : Options.scriptOf read with
          | some path => exact takesCourse_runScript resolved hscript
          | none => exact takesCourse_runSession resolved hscript

/-! ## Misuse -/

/-- What makes a run the wrong thing to ask for: the configuration file holds no document, the
format is unknown, the script is no file, or the script is no text behind its byte order mark. -/
inductive IsMisused (read : CommandLine.Arguments) (tree : FileTree) : Prop
  | malformedConfig (text : String) (found : HoldsText tree (Options.configPath read) text)
      (malformed : Toml.Table.ofText? text = none)
  | unknownFormat (config : Toml.Table) (configuration : IsConfiguration read tree config)
      (unknown : ∀ format : DumpFormat, Options.effectiveFormat read config ≠ .text format.name)
  | absentScript (path : Path) (script : Options.scriptOf read = some path)
      (absent : ∀ bytes, tree.find path ≠ .ok bytes)
  | undecodableScript (path : Path) (bytes : List UInt8)
      (script : Options.scriptOf read = some path) (found : tree.find path = .ok bytes)
      (undecodable : ∀ source, Utf8.encode source ≠ Utf8.dropMark bytes)

section

variable {read : CommandLine.Arguments} {tree : FileTree} {config : Toml.Table}

/-- A text in the configuration file is read as the configuration. -/
theorem IsConfiguration.ofText?_eq {text : String} (h : IsConfiguration read tree config)
    (found : HoldsText tree (Options.configPath read) text) :
    Toml.Table.ofText? text = some config := by
  rcases h with ⟨other, hother, hconfig⟩ | ⟨absent, -⟩
  · have same : Utf8.encode other = Utf8.encode text := Except.ok.inj (hother.symm.trans found)
    have decoded := Utf8.decode_eq_ok_iff.2 same
    rw [Utf8.decode_encode] at decoded
    rwa [Except.ok.inj decoded]
  · exact absurd found (absent _)

/-- There is one configuration at most. -/
theorem IsConfiguration.eq {other : Toml.Table} (h : IsConfiguration read tree config)
    (hother : IsConfiguration read tree other) : other = config := by
  rcases hother with ⟨text, found, hother⟩ | ⟨absent, rfl⟩
  · exact Option.some.inj (hother.symm.trans (h.ofText?_eq found))
  · rcases h with ⟨text, found, -⟩ | ⟨-, rfl⟩
    · exact absurd found (absent _)
    · rfl

/-- Where the options of a run are known and its script is a text, nothing is misused. -/
theorem IsResolved.not_isMisused {format : DumpFormat} (h : IsResolved read tree config format)
    (script : ∀ path, Options.scriptOf read = some path → ∃ bytes source,
      tree.find path = .ok bytes ∧ Utf8.encode source = Utf8.dropMark bytes) :
    ¬IsMisused read tree := by
  rintro (⟨text, found, malformed⟩ | ⟨other, hother, unknown⟩ | ⟨path, hpath, absent⟩ |
    ⟨path, bytes, hpath, found, undecodable⟩)
  · simp [h.loaded.configuration.ofText?_eq found] at malformed
  · rw [h.loaded.configuration.eq hother] at unknown
    exact unknown format h.known
  · obtain ⟨bytes, source, found, -⟩ := script path hpath
    exact absent bytes found
  · obtain ⟨_, source, hfound, decoded⟩ := script path hpath
    rw [found] at hfound
    exact undecodable source (Except.ok.inj hfound ▸ decoded)

end

/-! ## The contract -/

/-- A run that has not done its work: it says so and leaves everything else alone. -/
structure IsFailed (input : String) (result : Run) : Prop where
  diagnostics : result.diagnostics = []
  errors : ∃ message, result.transcript.on .errors = "error: " ++ message ++ "\n"
  output : result.transcript.on .output = ""
  unread : result.unread = (inputLines input).length

/-- A run over a script: its reports with the lines they are about, its tokens, and nothing of the
input. -/
structure IsScriptRun (input : String) (format : DumpFormat) (name source : String)
    (result : Run) : Prop where
  diagnostics : result.diagnostics = (scan source).diagnostics
  errors : result.transcript.on .errors = String.join (result.diagnostics.map fun report =>
    report.formatContext source name ++ "\n")
  output : result.transcript.on .output = dump format (scan source).tokens
  unread : result.unread = (inputLines input).length

/-- A run over the lines of the input in front of the first blank one: the reports on each, the
tokens of each behind a prompt, and a prompt for the line that ends it. -/
structure IsSessionRun (input : String) (format : DumpFormat) (prompt : String)
    (result : Run) : Prop where
  diagnostics : result.diagnostics =
    ((unitsOfReads (inputLines input)).map scan).flatMap Scan.diagnostics
  errors : result.transcript.on .errors = String.join (result.diagnostics.map fun report =>
    report.format ++ "\n")
  output : result.transcript.on .output =
    String.join ((unitsOfReads (inputLines input)).map fun unit =>
      prompt ++ dump format (scan unit).tokens) ++ prompt
  unread : result.unread =
    (inputLines input).length - ((unitsOfReads (inputLines input)).length + 1)

/-- A run that has done its work: over the script if one is named, or else over the input. -/
def IsDone (read : CommandLine.Arguments) (tree : FileTree) (input : String) (result : Run) :
    Prop :=
  ∃ config format, IsConfiguration read tree config ∧
    Options.effectiveFormat read config = .text format.name ∧
    ((∃ path bytes source, Options.scriptOf read = some path ∧ tree.find path = .ok bytes ∧
        Utf8.encode source = Utf8.dropMark bytes ∧
        IsScriptRun input format path.toString source result) ∨
      ∃ prompt, Options.scriptOf read = none ∧ Options.effectivePrompt read config = .text prompt ∧
        IsSessionRun input format prompt result)

/-- A run that reports an error of its own has not done its work. -/
theorem isFailed_failure (message input : String) :
    IsFailed input (.failure message (inputLines input).length) where
  diagnostics := rfl
  errors := ⟨message, by simp [Run.failure, Transcript.on]⟩
  output := rfl
  unread := rfl

/-- A scan of a script is a run over it. -/
theorem isScriptRun_printScan (input : String) (format : DumpFormat) (name source : String) :
    IsScriptRun input format name source (.ofOutcome
      (printScan format (.quoting source name) source) (inputLines input).length) where
  diagnostics := rfl
  errors := by
    rw [Run.ofOutcome, on_errors_printScan, Echo.filterMap_quoting]
    rfl
  output := on_output_printScan format _ source
  unread := rfl

/-- A session is a run over the lines of the input. -/
theorem isSessionRun_session (input : String) (format : DumpFormat) (prompt : String) :
    let held := session ⟨format, prompt, .plain⟩ .endOfInput (inputLines input)
    IsSessionRun input format prompt (.ofOutcome held.outcome held.unread) where
  diagnostics := by rw [session_eq]; rfl
  errors := by
    rw [← Echo.filterMap_plain]
    exact on_errors_session _ _ _
  output := by
    rw [Run.ofOutcome, on_output_session]
    simp [SessionSettings.closingText]
  unread := by
    rw [length_unitsOfReads, session_eq, Run.ofOutcome, List.length_drop]

/-- A run that returns has failed for a reason, or there is none and it has done its work. -/
theorem TakesCourse.failed_or_done {read : CommandLine.Arguments} {tree : FileTree}
    {input : String} {result : Run} (h : TakesCourse read tree input (.ok result)) :
    ((IsMisused read tree ∨ tree.find (Options.configPath read) = .error .nameTooLong) ∧
      result.ending = .returned .badArguments ∧ IsFailed input result) ∨
    (¬(IsMisused read tree ∨ tree.find (Options.configPath read) = .error .nameTooLong) ∧
      result.ending = .returned (.ofDiagnostics result.diagnostics) ∧
      IsDone read tree input result) := by
  generalize houtcome : Except.ok result = outcome at h
  cases h with
  | undecodableConfig | refusedScript | withdrawnPrompt => cases houtcome
  | malformedConfig found malformed message =>
      cases houtcome
      exact .inl ⟨.inl (.malformedConfig _ found malformed), rfl, isFailed_failure _ _⟩
  | refusedConfig refused message =>
      cases houtcome
      exact .inl ⟨.inr refused, rfl, isFailed_failure _ _⟩
  | unknownFormat loaded unknown message =>
      cases houtcome
      exact .inl ⟨.inl (.unknownFormat _ loaded.configuration unknown), rfl, isFailed_failure _ _⟩
  | @absentScript config format path resolved script absent message =>
      cases houtcome
      have no_bytes : ∀ bytes, tree.find path ≠ .ok bytes := by simp [absent]
      exact .inl ⟨.inl (.absentScript path script no_bytes), rfl, isFailed_failure _ _⟩
  | undecodableScript resolved script found undecodable message =>
      cases houtcome
      exact .inl ⟨.inl (.undecodableScript _ _ script found undecodable), rfl,
        isFailed_failure _ _⟩
  | @scan config format path bytes source resolved script found decoded =>
      cases houtcome
      refine .inr ⟨?_, rfl, config, format, resolved.loaded.configuration, resolved.known,
        .inl ⟨path, bytes, source, script, found, decoded, isScriptRun_printScan _ _ _ _⟩⟩
      refine not_or.2 ⟨resolved.not_isMisused fun other hother => ?_, resolved.loaded.accepted⟩
      cases script.symm.trans hother
      exact ⟨bytes, source, found, decoded⟩
  | @session config format prompt resolved unscripted prompted =>
      cases houtcome
      refine .inr ⟨?_, rfl, config, format, resolved.loaded.configuration, resolved.known,
        .inr ⟨prompt, unscripted, prompted, isSessionRun_session _ _ _⟩⟩
      refine not_or.2 ⟨resolved.not_isMisused fun other hother => ?_, resolved.loaded.accepted⟩
      cases unscripted.symm.trans hother

/-- A name that is longer than the system allows. -/
def overlongName : String :=
  String.ofList (List.replicate 300 'a')

/-- The characters of the long name. -/
theorem toList_overlongName : overlongName.toList = List.replicate 300 'a' :=
  String.toList_ofList

/-- All characters of the long name are letters. -/
theorem eq_of_mem_overlongName {c : Char} (h : c ∈ overlongName.toList) : c = 'a' :=
  List.eq_of_mem_replicate (toList_overlongName ▸ h)

/-- The long name is not empty. -/
theorem overlongName_ne_empty : overlongName ≠ "" := by
  decide +kernel

/-- The system refuses the long name. -/
theorem find_overlongName (tree : FileTree) :
    tree.find (.ofString overlongName) = .error .nameTooLong := by
  have slash : '/' ∉ overlongName.toList := fun hc =>
    absurd (eq_of_mem_overlongName hc) (by decide)
  have null : '\x00' ∉ overlongName.toList := fun hc =>
    absurd (eq_of_mem_overlongName hc) (by decide)
  rw [Path.ofString_of_not_mem slash (by decide +kernel)]
  exact FileTree.find_of_componentLimit_lt tree null (by decide +kernel)

/-- Which faults break a run down.  They are looked for in the order of the work, so a script name
that the system refuses does harm only where the options are known. -/
inductive BreaksDown (read : CommandLine.Arguments) (tree : FileTree) : Breakdown → Prop
  | undecodableConfig (bytes : List UInt8) (fault : Utf8.Fault)
      (found : tree.find (Options.configPath read) = .ok bytes)
      (undecodable : Utf8.decode bytes = .error fault) :
      BreaksDown read tree (.undecodableConfig fault)
  | withdrawnPrompt (config : Toml.Table) (format : DumpFormat)
      (resolved : IsResolved read tree config format) (unscripted : Options.scriptOf read = none)
      (withdrawn : Options.effectivePrompt read config = .withdrawn) :
      BreaksDown read tree .withdrawnPrompt
  | refusedScript (config : Toml.Table) (format : DumpFormat) (path : Path)
      (resolved : IsResolved read tree config format) (script : Options.scriptOf read = some path)
      (refused : tree.find path = .error .nameTooLong) :
      BreaksDown read tree (.scriptNameTooLong path)

/-- The options of a run are found where they are known. -/
theorem resolve_of_isResolved {read : CommandLine.Arguments} {tree : FileTree}
    {config : Toml.Table} {format : DumpFormat} (h : IsResolved read tree config format) :
    Options.resolve read (tree.find (Options.configPath read)) =
      .ok ⟨Options.scriptOf read, format, Options.effectivePrompt read config⟩ := by
  have loaded : loadConfig (Options.configPath read) (tree.find (Options.configPath read)) =
      .ok config := by
    rcases h.loaded.configuration with ⟨text, found, hconfig⟩ | ⟨no_bytes, rfl⟩
    · exact loads_iff.1 (.held found hconfig)
    · rcases hfound : tree.find (Options.configPath read) with (_ | _) | bytes
      · rfl
      · exact absurd hfound h.loaded.accepted
      · exact absurd hfound (no_bytes bytes)
  have known := formatOfValue?_eq_some_iff.2 h.known
  simp only [Options.resolve, loaded, Options.parseFormat, known]

/-- A run with an accepted command line returns by itself unless one of three faults breaks it
down: a configuration file that is no text, a session whose prompt has been withdrawn, or a script
with a name that the system refuses. -/
theorem run_returns_or_breaks_down {arguments : List String} {read : CommandLine.Arguments}
    (accepted : CommandLine.read arguments = .ok read) (tree : FileTree) (input : String) :
    (∀ breakdown, run arguments tree input = .error breakdown ↔ BreaksDown read tree breakdown) ∧
      ((∀ breakdown, ¬BreaksDown read tree breakdown) → ∃ result code,
        run arguments tree input = .ok result ∧ result.ending = .returned code) := by
  have course := run_takesCourse accepted tree input
  have breaks : ∀ breakdown, run arguments tree input = .error breakdown →
      BreaksDown read tree breakdown := by
    intro breakdown hrun
    rw [hrun] at course
    cases course with
    | undecodableConfig found undecodable => exact .undecodableConfig _ _ found undecodable
    | withdrawnPrompt resolved unscripted withdrawn =>
        exact .withdrawnPrompt _ _ resolved unscripted withdrawn
    | refusedScript resolved script refused => exact .refusedScript _ _ _ resolved script refused
  refine ⟨fun breakdown => ⟨breaks breakdown, ?_⟩, ?_⟩
  · intro h
    cases h with
    | undecodableConfig bytes fault found undecodable =>
        simp only [run, accepted, Options.resolve, found, loadConfig, undecodable, runOptionsError]
    | withdrawnPrompt config format resolved unscripted withdrawn =>
        simp only [run, accepted, resolve_of_isResolved resolved, unscripted, runSession,
          Options.sessionSettings, withdrawn]
    | refusedScript config format path resolved script refused =>
        simp only [run, accepted, resolve_of_isResolved resolved, script, runScript, refused]
  · intro sound
    cases hrun : run arguments tree input with
    | error breakdown => exact absurd (breaks breakdown hrun) (sound breakdown)
    | ok result =>
        rw [hrun] at course
        rcases course.failed_or_done with ⟨-, hending, -⟩ | ⟨-, hending, -⟩
        · exact ⟨result, _, rfl, hending⟩
        · exact ⟨result, _, rfl, hending⟩

/-- A configuration file of one byte that begins no character. -/
theorem run_returns_or_breaks_down_undecodable :
    CommandLine.read [] = .ok .none ∧
      run [] ⟨[⟨["lox.toml"], some [0xFF]⟩], []⟩ "" =
        .error (.undecodableConfig ⟨0, 1, 0xFF, .startByte⟩) := by
  refine ⟨CommandLine.read_nil, ?_⟩
  refine ((run_returns_or_breaks_down CommandLine.read_nil _ _).1 _).2 ?_
  exact .undecodableConfig [0xFF] _ (by decide +kernel) (by decide +kernel)

/-- Not every run with an accepted command line returns: a configuration file that is no text
breaks it down, where a script that is no text would only be reported. -/
theorem exists_accepted_without_result :
    ¬∀ (arguments : List String) (read : CommandLine.Arguments) (tree : FileTree)
      (input : String), CommandLine.read arguments = .ok read →
        ∃ result, run arguments tree input = .ok result := by
  intro h
  obtain ⟨result, hresult⟩ :=
    h [] .none ⟨[⟨["lox.toml"], some [0xFF]⟩], []⟩ "" CommandLine.read_nil
  have broken : (run [] ⟨[⟨["lox.toml"], some [0xFF]⟩], []⟩ "").isOk = false := by decide +kernel
  rw [hresult] at broken
  cases broken

end Lox
