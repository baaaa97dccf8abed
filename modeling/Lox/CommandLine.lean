import Lox.CommandLine.Item
import Lox.Text.Quoted

/-!
# Reading a command line

The classified arguments are carried out from left to right.  An option that takes a value takes the
one attached to it or else the value right behind it; of a repeated option the last value counts.
An attached double dash is no text: it withdraws the value.  The first value that no option has
taken names the script.  Whatever is left over is reported together at the end, but asking for help
or leaving out a value ends the reading at once.

Main results:

- `read_nil`: an empty command line sets nothing.
- `carryOut_option_attached`: an attached value is taken as it is unless it is a double dash.
-/

namespace Lox.CommandLine

/-- The value that an option has been given: a text, or none after all. -/
inductive OptionValue where
  | text (value : String)
  | withdrawn
  deriving DecidableEq

namespace OptionValue

/-- The value attached to an option.  A double dash withdraws it. -/
def ofAttached (value : String) : OptionValue :=
  if value = "--" then withdrawn else text value

/-- The form of a value in messages: a text in quotes, or an empty pair of brackets. -/
def shown : OptionValue → String
  | text value => Quoted.quote value
  | withdrawn => "[]"

/-- Every attached value but the double dash is a text as it is. -/
theorem ofAttached_of_ne {value : String} (h : value ≠ "--") : ofAttached value = text value := by
  simp [ofAttached, h]

end OptionValue

/-- What a command line has set. -/
structure Arguments where
  script : Option String
  format : Option OptionValue
  config : Option OptionValue
  prompt : Option OptionValue
  deriving DecidableEq

/-- Why a command line is not carried out. -/
inductive Refusal where
  | help
  | usage (error : UsageError)
  deriving DecidableEq

namespace Arguments

/-- Nothing is set. -/
def none : Arguments :=
  ⟨.none, .none, .none, .none⟩

/-- Sets the value of an option. -/
def set (arguments : Arguments) (setting : Setting) (value : OptionValue) : Arguments :=
  match setting with
  | .format => { arguments with format := some value }
  | .config => { arguments with config := some value }
  | .prompt => { arguments with prompt := some value }

end Arguments

/-- A command line being read. -/
structure Progress where
  arguments : Arguments
  scriptRead : Bool
  leftOver : List String

namespace Progress

/-- Nothing has been read. -/
def start : Progress :=
  ⟨.none, false, []⟩

/-- Leaves an argument over. -/
def leave (progress : Progress) (argument : String) : Progress :=
  { progress with leftOver := progress.leftOver ++ [argument] }

/-- Sets the value of an option. -/
def set (progress : Progress) (setting : Setting) (value : OptionValue) : Progress :=
  { progress with arguments := progress.arguments.set setting value }

/-- Takes a value as the name of the script if there is none yet. -/
def takeValue (progress : Progress) (value : String) : Progress :=
  if progress.scriptRead then progress.leave value
  else
    { progress with
      arguments := { progress.arguments with script := some value }
      scriptRead := true }

end Progress

/-- What asking for help comes to.  The short name may be repeated in the value attached to it; any
other value has no use. -/
def helpRefusal (short : Bool) : Option String → Refusal
  | none => .help
  | some attached =>
      let further := if short then attached.toList.dropWhile (· == 'h') else attached.toList
      if further.isEmpty && short && !attached.isEmpty then .help
      else .usage (.ignoredValue (String.ofList further))

/-- Carries out classified arguments.  The double dash belongs to the script if it stands next to
it; otherwise it is left over. -/
def carryOut (progress : Progress) : List Item → Except Refusal Progress
  | [] => .ok progress
  | .value text :: rest =>
      if progress.scriptRead then carryOut (progress.takeValue text) rest
      else match rest with
        | .separator :: rest => carryOut (progress.takeValue text) rest
        | rest => carryOut (progress.takeValue text) rest
  | .separator :: rest =>
      carryOut (if progress.scriptRead then progress.leave "--" else progress) rest
  | .option (.help short) attached :: _ => .error (helpRefusal short attached)
  | .option (.setting setting) (some value) :: rest =>
      carryOut (progress.set setting (.ofAttached value)) rest
  | .option (.setting setting) none :: .value value :: rest =>
      carryOut (progress.set setting (.text value)) rest
  | .option (.setting setting) none :: _ => .error (.usage (.missingValue setting))
  | .unknown text :: rest => carryOut (progress.leave text) rest

/-- Reads a command line. -/
def read (arguments : List String) : Except Refusal Arguments :=
  match itemsOfArguments arguments with
  | .error error => .error (.usage error)
  | .ok items =>
      match carryOut .start items with
      | .error refusal => .error refusal
      | .ok progress =>
          if progress.leftOver.isEmpty then .ok progress.arguments
          else .error (.usage (.unrecognized progress.leftOver))

/-- An empty command line sets nothing. -/
theorem read_nil : read [] = .ok .none := rfl

/-- An attached value is taken as it is unless it is a double dash. -/
theorem carryOut_option_attached (progress : Progress) (setting : Setting) {value : String}
    (rest : List Item) (h : value ≠ "--") :
    carryOut progress (.option (.setting setting) (some value) :: rest) =
      carryOut (progress.set setting (.text value)) rest := by
  rw [carryOut, OptionValue.ofAttached_of_ne h]

/-! ## Texts -/

/-- The short description of the command line. -/
def usageLine : String :=
  "usage: loxscan [-h] [--format FMT] [--config FILE] [--prompt STR] [script]\n"

/-- The long description of the command line. -/
def helpText : String :=
  usageLine ++ "\n" ++
    "Scan Lox source and print its tokens\n" ++
    "\n" ++
    "positional arguments:\n" ++
    "  script         Lox script (default: interactive prompt)\n" ++
    "\n" ++
    "options:\n" ++
    "  -h, --help     show this help message and exit\n" ++
    "  --format FMT   Token output format: text or json (default: text)\n" ++
    "  --config FILE  Config file (default: auto-discover lox.toml)\n" ++
    "  --prompt STR   Interactive prompt string\n"

/-- What is wrong with a command line. -/
def UsageError.message : UsageError → String
  | ambiguous argument candidates =>
      "ambiguous option: " ++ argument ++ " could match " ++
        String.intercalate ", " (candidates.map Flag.name)
  | missingValue setting => "argument " ++ setting.flag ++ ": expected one argument"
  | ignoredValue value =>
      "argument -h/--help: ignored explicit argument " ++ Quoted.quote value
  | unrecognized arguments => "unrecognized arguments: " ++ String.intercalate " " arguments

/-- What is shown for a usage error. -/
def UsageError.report (error : UsageError) : String :=
  usageLine ++ "loxscan: error: " ++ error.message ++ "\n"

end Lox.CommandLine
