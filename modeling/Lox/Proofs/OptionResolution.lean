import Lox.Proofs.RunContract

/-!
# How options are resolved

The rules by which the options of a run are found, said of the command line and the files alone:
which one file may hold the configuration, which of three values of an option counts, and which
faults there are.  Each rule leaves one way only, so they say what comes of resolving options, and
nothing else does.

Nothing but the one file is looked at, and what is wrong with it is an error even where no value in
it would have counted.

Main results:

- Theorem `isCandidate_iff`: there is one file to look for.
- Theorem `isEffective_iff`: there is one value that counts.
- Theorem `isResolution_iff_resolve`: options are resolved by the rules.
-/

namespace Lox

open CommandLine (Arguments OptionValue)

/-! ## Rules -/

/-- The script is what a text names that is given and not empty. -/
inductive IsScript (arguments : Arguments) : Option Path → Prop
  | named {script : String} (given : arguments.script = some script) (nonempty : script ≠ "") :
      IsScript arguments (some (.ofString script))
  | missing (unnamed : ∀ script, arguments.script = some script → script = "") :
      IsScript arguments none

/-- The one file that may hold the configuration: the one that is named, or else one in the
directory that the script is in by its name, or else one in the current directory. -/
inductive IsCandidate (arguments : Arguments) : Path → Prop
  | named {name : String} (given : arguments.config = some (.text name)) (nonempty : name ≠ "") :
      IsCandidate arguments (.ofString name)
  | besideScript {script : Path}
      (unnamed : ∀ name, arguments.config = some (.text name) → name = "")
      (scripted : IsScript arguments (some script)) (elsewhere : script.parent ≠ .ofString ".") :
      IsCandidate arguments (script.parent.child "lox.toml")
  | inCurrentDirectory (unnamed : ∀ name, arguments.config = some (.text name) → name = "")
      (here : ∀ script, IsScript arguments (some script) → script.parent = .ofString ".") :
      IsCandidate arguments (.ofString "lox.toml")

/-- The value of an option that counts: the one on the command line, or else a text in a table of
the configuration, or else the default. -/
inductive IsEffective (flag : Option OptionValue) (config : Toml.Table)
    (group name default : String) : OptionValue → Prop
  | flag {value : OptionValue} (given : flag = some value) :
      IsEffective flag config group name default value
  | configured {entries : Toml.Table} {text : String} (missing : flag = none)
      (grouped : config.lookup group = some (.table entries))
      (found : entries.lookup name = some (.string text)) :
      IsEffective flag config group name default (.text text)
  | default (missing : flag = none)
      (unconfigured : ∀ entries text, config.lookup group = some (.table entries) →
        entries.lookup name ≠ some (.string text)) :
      IsEffective flag config group name default (.text default)

/-- What comes of resolving the options of a run: an error of the file that may hold the
configuration, an unknown format, or the options. -/
inductive IsResolution (arguments : Arguments) (tree : FileTree) :
    Except OptionsError Options → Prop
  | unloaded {path : Path} {error : OptionsError} (candidate : IsCandidate arguments path)
      (failed : Loads tree path (.error error)) : IsResolution arguments tree (.error error)
  | unknownFormat {path : Path} {config : Toml.Table} {value : OptionValue}
      (candidate : IsCandidate arguments path) (loaded : Loads tree path (.ok config))
      (format : IsEffective arguments.format config "output" "format" "text" value)
      (unknown : value ≠ .text "text" ∧ value ≠ .text "json") :
      IsResolution arguments tree (.error (.unknownFormat value))
  | resolved {path : Path} {config : Toml.Table} {script : Option Path} {known : DumpFormat}
      {value : OptionValue} (candidate : IsCandidate arguments path)
      (loaded : Loads tree path (.ok config)) (scripted : IsScript arguments script)
      (format : IsEffective arguments.format config "output" "format" "text" (.text known.name))
      (prompt : IsEffective arguments.prompt config "repl" "prompt" "> " value) :
      IsResolution arguments tree (.ok ⟨script, known, value⟩)

/-- A rule that leaves one way, and always one, says what the way is. -/
theorem iff_eq_of_exists {α : Type} {rule : α → Prop} {result : α}
    (sound : ∀ other, rule other → result = other) (total : ∃ other, rule other) (other : α) :
    rule other ↔ result = other := by
  refine ⟨sound other, ?_⟩
  rintro rfl
  obtain ⟨found, hfound⟩ := total
  rwa [sound found hfound]

/-! ## Paths -/

/-- A text that is not empty names a path. -/
theorem pathOfText?_of_ne_empty {text : String} (h : text ≠ "") :
    Options.pathOfText? text = some (.ofString text) := by
  unfold Options.pathOfText?
  rw [if_neg (mt String.isEmpty_iff.1 h)]

section

variable {arguments : Arguments}

/-- There is one script, or none. -/
theorem isScript_iff {script : Option Path} :
    IsScript arguments script ↔ Options.scriptOf arguments = script := by
  refine iff_eq_of_exists ?_ ?_ script
  · intro other h
    cases h with
    | named given nonempty =>
        rw [Options.scriptOf, given]
        exact pathOfText?_of_ne_empty nonempty
    | missing unnamed =>
        cases hscript : arguments.script with
        | none => rw [Options.scriptOf, hscript, Option.bind_none]
        | some text =>
            obtain rfl := unnamed text hscript
            rw [Options.scriptOf, hscript]
            rfl
  · by_cases hnamed : ∃ script, arguments.script = some script ∧ script ≠ ""
    · obtain ⟨script, given, nonempty⟩ := hnamed
      exact ⟨_, .named given nonempty⟩
    · push Not at hnamed
      exact ⟨_, .missing hnamed⟩

/-- A configuration file that is not named, or by an empty name, is looked for. -/
theorem namedConfig_of_unnamed (h : ∀ name, arguments.config = some (.text name) → name = "") :
    Options.namedConfig arguments = none := by
  unfold Options.namedConfig
  split
  · next name hname =>
    obtain rfl := h name hname
    rfl
  all_goals rfl

/-- There is one file to look for. -/
theorem isCandidate_iff {path : Path} :
    IsCandidate arguments path ↔ Options.configPath arguments = path := by
  have current : (Path.ofString ".").parent = .ofString "." := by decide +kernel
  have beside : (Path.ofString ".").child Options.configName = .ofString "lox.toml" := by
    decide +kernel
  refine iff_eq_of_exists ?_ ?_ path
  · intro other h
    cases h with
    | named given nonempty =>
        simp only [Options.configPath, Options.namedConfig, given,
          pathOfText?_of_ne_empty nonempty, Option.getD_some]
    | besideScript unnamed scripted elsewhere =>
        simp only [Options.configPath, namedConfig_of_unnamed unnamed, isScript_iff.1 scripted,
          Option.getD_none, Option.getD_some]
        rfl
    | inCurrentDirectory unnamed here =>
        have directory : ((Options.scriptOf arguments).getD (.ofString ".")).parent =
            .ofString "." := by
          cases hscript : Options.scriptOf arguments with
          | none => rw [Option.getD_none, current]
          | some script => rw [Option.getD_some, here script (isScript_iff.2 hscript)]
        simp only [Options.configPath, namedConfig_of_unnamed unnamed, Option.getD_none, directory,
          beside]
  · by_cases hnamed : ∃ name, arguments.config = some (.text name) ∧ name ≠ ""
    · obtain ⟨name, given, nonempty⟩ := hnamed
      exact ⟨_, .named given nonempty⟩
    · push Not at hnamed
      by_cases hbeside : ∃ script, IsScript arguments (some script) ∧
          script.parent ≠ .ofString "."
      · obtain ⟨script, scripted, elsewhere⟩ := hbeside
        exact ⟨_, .besideScript hnamed scripted elsewhere⟩
      · push Not at hbeside
        exact ⟨_, .inCurrentDirectory hnamed hbeside⟩

end

/-! ## Values -/

/-- What is found in the configuration is a text in a table. -/
theorem configText?_eq_some_iff {config : Toml.Table} {group name text : String} :
    Options.configText? config group name = some text ↔
      ∃ entries, config.lookup group = some (.table entries) ∧
        entries.lookup name = some (.string text) := by
  have table {value : Toml.Value} {entries : Toml.Table} :
      value.table? = some entries ↔ value = .table entries := by
    cases value <;> simp [Toml.Value.table?]
  have string {value : Toml.Value} {text : String} :
      value.string? = some text ↔ value = .string text := by
    cases value <;> simp [Toml.Value.string?]
  simp [Options.configText?, Option.bind_eq_some_iff, table, string]

/-- There is one value that counts. -/
theorem isEffective_iff {flag : Option OptionValue} {config : Toml.Table}
    {group name default : String} {value : OptionValue} :
    IsEffective flag config group name default value ↔
      Options.effective flag (Options.configText? config group name) default = value := by
  refine iff_eq_of_exists ?_ ?_ value
  · intro other h
    cases h with
    | flag given => rw [Options.effective, given, Option.getD_some]
    | configured missing grouped found =>
        rw [Options.effective, missing, configText?_eq_some_iff.2 ⟨_, grouped, found⟩]
        rfl
    | default missing unconfigured =>
        have none_found : Options.configText? config group name = none := by
          refine Option.eq_none_iff_forall_ne_some.2 fun text htext => ?_
          obtain ⟨entries, grouped, found⟩ := configText?_eq_some_iff.1 htext
          exact unconfigured entries text grouped found
        rw [Options.effective, missing, none_found]
        rfl
  · cases hflag : flag with
    | some value => exact ⟨value, .flag rfl⟩
    | none =>
        cases htext : Options.configText? config group name with
        | none =>
            refine ⟨_, .default rfl fun entries text grouped found => ?_⟩
            rw [configText?_eq_some_iff.2 ⟨entries, grouped, found⟩] at htext
            cases htext
        | some text =>
            obtain ⟨entries, grouped, found⟩ := configText?_eq_some_iff.1 htext
            exact ⟨_, .configured rfl grouped found⟩

/-- A value that is the name of no format. -/
theorem forall_ne_name_iff {value : OptionValue} :
    (∀ format : DumpFormat, value ≠ .text format.name) ↔
      value ≠ .text "text" ∧ value ≠ .text "json" := by
  constructor
  · exact fun h => ⟨h .text, h .json⟩
  · rintro ⟨htext, hjson⟩ (_ | _)
    · exact htext
    · exact hjson

/-! ## Resolution -/

section

variable {arguments : Arguments} {tree : FileTree}

/-- A rule for resolving options is followed. -/
theorem IsResolution.resolve_eq {result : Except OptionsError Options}
    (h : IsResolution arguments tree result) :
    Options.resolve arguments (tree.find (Options.configPath arguments)) = result := by
  cases h with
  | unloaded candidate failed =>
      obtain rfl := isCandidate_iff.1 candidate
      exact Options.resolve_of_unreadable (loads_iff.1 failed)
  | @unknownFormat path config value candidate loaded format unknown =>
      obtain rfl := isCandidate_iff.1 candidate
      have effective : Options.effectiveFormat arguments config = value := isEffective_iff.1 format
      have unnamed := formatOfValue?_eq_none_iff.2 (forall_ne_name_iff.2 unknown)
      simp only [Options.resolve, loads_iff.1 loaded, Options.parseFormat, effective, unnamed]
  | @resolved path config script known value candidate loaded scripted format prompt =>
      obtain rfl := isCandidate_iff.1 candidate
      have effective : Options.effectiveFormat arguments config = .text known.name :=
        isEffective_iff.1 format
      have prompted : Options.effectivePrompt arguments config = value := isEffective_iff.1 prompt
      have named := formatOfValue?_eq_some_iff.2 effective
      simp only [Options.resolve, loads_iff.1 loaded, Options.parseFormat, named,
        isScript_iff.1 scripted, prompted]

/-- There is a rule for every command line and all files. -/
theorem exists_isResolution (arguments : Arguments) (tree : FileTree) :
    ∃ result, IsResolution arguments tree result := by
  have candidate : IsCandidate arguments (Options.configPath arguments) := isCandidate_iff.2 rfl
  cases hloaded : loadConfig (Options.configPath arguments)
      (tree.find (Options.configPath arguments)) with
  | error error => exact ⟨_, .unloaded candidate (loads_iff.2 hloaded)⟩
  | ok config =>
      cases hformat : Options.formatOfValue? (Options.effectiveFormat arguments config) with
      | none =>
          exact ⟨_, .unknownFormat candidate (loads_iff.2 hloaded) (isEffective_iff.2 rfl)
            (forall_ne_name_iff.1 (formatOfValue?_eq_none_iff.1 hformat))⟩
      | some format =>
          exact ⟨_, .resolved candidate (loads_iff.2 hloaded) (isScript_iff.2 rfl)
            (isEffective_iff.2 (formatOfValue?_eq_some_iff.1 hformat)) (isEffective_iff.2 rfl)⟩

end

/-- Options are resolved by the rules, from what looking for the one file gives. -/
theorem isResolution_iff_resolve (arguments : Arguments) (tree : FileTree) :
    ∃ path, (∀ other, IsCandidate arguments other ↔ path = other) ∧
      ∀ result, IsResolution arguments tree result ↔
        Options.resolve arguments (tree.find path) = result :=
  ⟨Options.configPath arguments, fun _ => isCandidate_iff,
    iff_eq_of_exists (fun _ h => h.resolve_eq) (exists_isResolution arguments tree)⟩

/-- Where there is no file to look for, options are not always resolved as from an empty table: the
name of the file may be one that the system refuses. -/
theorem exists_unresolved_without_file :
    ¬∀ (arguments : Arguments) (tree : FileTree) (path : Path), IsCandidate arguments path →
      (∀ bytes, tree.find path ≠ .ok bytes) →
        IsEffective arguments.format [] "output" "format" "text" (.text "text") →
          ∃ options, Options.resolve arguments (tree.find path) = .ok options := by
  intro h
  have refused := find_overlongName ⟨[], []⟩
  obtain ⟨options, resolved⟩ := h ⟨none, none, some (.text overlongName), none⟩ ⟨[], []⟩ _
    (.named rfl overlongName_ne_empty) (by simp [refused]) (.default rfl (by simp))
  rw [refused] at resolved
  cases resolved

end Lox
