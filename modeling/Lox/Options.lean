import Lox.CommandLine
import Lox.Dump
import Lox.FileTree
import Lox.Toml.Document

/-!
# Options

What a run needs to know is the script, the dump format and the prompt.  The command line wins over
the configuration file, and the configuration file over the defaults.  One file is looked for: the
one named on the command line, or else one with a fixed name beside the script, or in the current
directory if there is no script.  It may be missing, but a file that is there has to be in order
even if nothing in it is needed.  An option with its value withdrawn still counts: no format is
known by it and no prompt can be written, but a configuration file is looked for as if none had been
named.

Main results:

- `Options.effectiveFormat_of_flag`, `Options.effectivePrompt_of_flag`: a value on the command line
  counts whatever the configuration says.
- `Options.resolve_of_unreadable`: a faulty configuration file is an error whatever else the command
  line says.
-/

namespace Lox

/-- Why no options can be had. -/
inductive OptionsError where
  | unknownFormat (value : CommandLine.OptionValue)
  | malformedConfig
  | undecodableConfig (fault : Utf8.Fault)
  | configNameTooLong (path : Path)
  deriving DecidableEq

/-- The configuration in the file at a path, by what looking there gives.  The file may be
missing. -/
def loadConfig (path : Path) (found : Except Obstacle (List UInt8)) :
    Except OptionsError Toml.Table :=
  match found with
  | .error .absent => .ok []
  | .error .nameTooLong => .error (.configNameTooLong path)
  | .ok bytes =>
      match Utf8.decode bytes with
      | .error fault => .error (.undecodableConfig fault)
      | .ok text =>
          match Toml.Table.ofText? text with
          | none => .error .malformedConfig
          | some table => .ok table

/-- What a run needs to know. -/
structure Options where
  script : Option Path
  format : DumpFormat
  prompt : CommandLine.OptionValue
  deriving DecidableEq

namespace Options

/-- The name of the configuration file beside a script. -/
def configName : String := "lox.toml"

/-- The prompt if nothing else is said. -/
def defaultPrompt : String := "> "

/-- The path that a text names.  The empty text names none. -/
def pathOfText? (text : String) : Option Path :=
  if text.isEmpty then none else some (.ofString text)

/-- The script on the command line. -/
def scriptOf (arguments : CommandLine.Arguments) : Option Path :=
  arguments.script.bind pathOfText?

/-- The configuration file on the command line. -/
def namedConfig (arguments : CommandLine.Arguments) : Option Path :=
  match arguments.config with
  | some (.text name) => pathOfText? name
  | some .withdrawn | none => none

/-- The one file that may hold the configuration. -/
def configPath (arguments : CommandLine.Arguments) : Path :=
  let directory := ((scriptOf arguments).getD (.ofString ".")).parent
  (namedConfig arguments).getD (directory.child configName)

/-- A text in a section of the configuration.  Entries of other types do not count. -/
def configText? (config : Toml.Table) (group name : String) : Option String := do
  let entries ← (← config.lookup group).table?
  (← entries.lookup name).string?

/-- The value of an option that counts: the one on the command line, or else the one in the
configuration, or else the default. -/
def effective (flag : Option CommandLine.OptionValue) (configured : Option String)
    (default : String) : CommandLine.OptionValue :=
  flag.getD (.text (configured.getD default))

/-- The name of the format that counts. -/
def effectiveFormat (arguments : CommandLine.Arguments) (config : Toml.Table) :
    CommandLine.OptionValue :=
  effective arguments.format (configText? config "output" "format") DumpFormat.text.name

/-- The prompt that counts. -/
def effectivePrompt (arguments : CommandLine.Arguments) (config : Toml.Table) :
    CommandLine.OptionValue :=
  effective arguments.prompt (configText? config "repl" "prompt") defaultPrompt

/-- The format that a value names. -/
def formatOfValue? : CommandLine.OptionValue → Option DumpFormat
  | .text name => DumpFormat.parse? name
  | .withdrawn => none

/-- The format that a value names, which has to be known. -/
def parseFormat (value : CommandLine.OptionValue) : Except OptionsError DumpFormat :=
  match formatOfValue? value with
  | some format => .ok format
  | none => .error (.unknownFormat value)

/-- The options of a run, by what looking for the configuration file gives. -/
def resolve (arguments : CommandLine.Arguments) (found : Except Obstacle (List UInt8)) :
    Except OptionsError Options :=
  match loadConfig (configPath arguments) found with
  | .error error => .error error
  | .ok config =>
      match parseFormat (effectiveFormat arguments config) with
      | .error error => .error error
      | .ok format => .ok ⟨scriptOf arguments, format, effectivePrompt arguments config⟩

/-- A format on the command line counts whatever the configuration says. -/
theorem effectiveFormat_of_flag {arguments : CommandLine.Arguments}
    {value : CommandLine.OptionValue} (h : arguments.format = some value) (config : Toml.Table) :
    effectiveFormat arguments config = value := by
  simp [effectiveFormat, effective, h]

/-- A prompt on the command line counts whatever the configuration says. -/
theorem effectivePrompt_of_flag {arguments : CommandLine.Arguments}
    {value : CommandLine.OptionValue} (h : arguments.prompt = some value) (config : Toml.Table) :
    effectivePrompt arguments config = value := by
  simp [effectivePrompt, effective, h]

/-- A faulty configuration file is an error whatever else the command line says. -/
theorem resolve_of_unreadable {arguments : CommandLine.Arguments}
    {found : Except Obstacle (List UInt8)} {error : OptionsError}
    (h : loadConfig (configPath arguments) found = .error error) :
    resolve arguments found = .error error := by
  simp [resolve, h]

end Options

/-! ## Messages -/

/-- The message about an unknown format. -/
def unknownFormatMessage (value : CommandLine.OptionValue) : String :=
  "invalid output format " ++ value.shown ++ " (expected one of: " ++
    String.intercalate ", " (DumpFormat.all.map DumpFormat.name) ++ ")"

/-- The message about a name that the system refuses, with the number of its error. -/
def nameTooLongMessage (path : Path) : String :=
  "[Errno 36] File name too long: " ++ Quoted.quote path.toString

end Lox
