import Lox.Options
import Lox.Session

/-!
# The program

One run of the program: the command line is read, the options are resolved, and then either a script
is scanned and printed or a session is held on the standard input.  A run ends with an exit code and
leaves a transcript of everything it wrote.

Files are given as a tree and the input as a text, so a run is a function.  The stages take what
looking for the one file that they need gives and can also be carried out one by one.  A few faults
are not reported by the program but break it down, with nothing written.
-/

namespace Lox

/-- How a run went. -/
inductive ExitCode where
  | noError
  | error
  | badArguments
  deriving DecidableEq

namespace ExitCode

/-- Every exit code. -/
def all : List ExitCode :=
  [noError, error, badArguments]

/-- The name of an exit code. -/
def name : ExitCode → String
  | noError => "NO_ERROR"
  | error => "ERROR"
  | badArguments => "BAD_ARGUMENTS"

/-- The number of an exit code. -/
def value : ExitCode → Nat
  | noError => 0
  | error => 1
  | badArguments => 2

/-- The exit code for a run that has reported some diagnostics. -/
def ofDiagnostics (diagnostics : List Diagnostic) : ExitCode :=
  if diagnostics.isEmpty then noError else error

end ExitCode

/-- What ends a run: its own work, or the command line, of which nothing is carried out. -/
inductive RunEnd where
  | returned (code : ExitCode)
  | refused (code : ExitCode)
  deriving DecidableEq

/-- The exit code of a run. -/
def RunEnd.code : RunEnd → ExitCode
  | returned code => code
  | refused code => code

/-- What a run leaves behind: how it ended, everything written, the diagnostics, and how many lines
of the input it did not read. -/
structure Run where
  ending : RunEnd
  transcript : Transcript
  diagnostics : List Diagnostic
  unread : Nat
  deriving DecidableEq

/-- What breaks the program down: a configuration file that is no text, a session without a prompt,
or a script with a name that the system refuses. -/
inductive Breakdown where
  | undecodableConfig (fault : Utf8.Fault)
  | withdrawnPrompt
  | scriptNameTooLong (path : Path)
  deriving DecidableEq

/-- What is wrong when the program breaks down. -/
def Breakdown.message : Breakdown → String
  | undecodableConfig fault => fault.message
  | withdrawnPrompt => "no prompt to write"
  | scriptNameTooLong path => nameTooLongMessage path

namespace Run

/-- A run that reports one error of its own and does nothing else. -/
def failure (message : String) (unread : Nat) : Run :=
  ⟨.returned .badArguments, [⟨.errors, "error: " ++ message ++ "\n"⟩], [], unread⟩

/-- A run that has done its work. -/
def ofOutcome (outcome : Outcome) (unread : Nat) : Run :=
  ⟨.returned (.ofDiagnostics outcome.diagnostics), outcome.transcript, outcome.diagnostics, unread⟩

end Run

/-! ## The input -/

/-- The text with a newline for every line end: a carriage return, a newline, or both. -/
def unifyLineEnds : List Char → List Char
  | '\r' :: '\n' :: rest => '\n' :: unifyLineEnds rest
  | c :: rest => (if c = '\r' then '\n' else c) :: unifyLineEnds rest
  | [] => []

/-- The lines of the input, each with its newline.  A text behind the last newline is a line
without. -/
def inputLines (input : String) : List String :=
  let lines := splitLines (unifyLineEnds input.toList)
  let ended := lines.dropLast.map fun line => String.ofList (line ++ ['\n'])
  let last := lines.getLastD []
  if last.isEmpty then ended else ended ++ [String.ofList last]

/-! ## Stages -/

/-- Scans and prints a script, by its path and what looking there gives. -/
def runScript (format : DumpFormat) (path : Path) (found : Except Obstacle (List UInt8))
    (unread : Nat) : Except Breakdown Run :=
  match found with
  | .error .nameTooLong => .error (.scriptNameTooLong path)
  | .error .absent => .ok (.failure ("no such file: " ++ path.toString) unread)
  | .ok bytes =>
      match Utf8.decode (Utf8.dropMark bytes) with
      | .error fault =>
          .ok (.failure ("cannot read " ++ path.toString ++ ": " ++ fault.message) unread)
      | .ok source =>
          .ok (.ofOutcome (printScan format (.quoting source path.toString) source) unread)

/-- How a session under some options scans and prompts.  A session needs a prompt to write. -/
def Options.sessionSettings (options : Options) : Except Breakdown SessionSettings :=
  match options.prompt with
  | .text prompt => .ok ⟨options.format, prompt, .plain⟩
  | .withdrawn => .error .withdrawnPrompt

/-- Holds a session on the lines of the input. -/
def runSession (options : Options) (lines : List String) : Except Breakdown Run :=
  match options.sessionSettings with
  | .error breakdown => .error breakdown
  | .ok settings =>
      let held := session settings .endOfInput lines
      .ok (.ofOutcome held.outcome held.unread)

/-- What a refused command line comes to. -/
def runRefusal (unread : Nat) : CommandLine.Refusal → Run
  | .help => ⟨.refused .noError, [⟨.output, CommandLine.helpText⟩], [], unread⟩
  | .usage error => ⟨.refused .badArguments, [⟨.errors, error.report⟩], [], unread⟩

/-- What options that cannot be had come to. -/
def runOptionsError (unread : Nat) : OptionsError → Except Breakdown Run
  | .unknownFormat value => .ok (.failure (unknownFormatMessage value) unread)
  | .malformedConfig => .ok (.failure "cannot load config: not a valid document" unread)
  | .configNameTooLong path =>
      .ok (.failure ("cannot load config: " ++ nameTooLongMessage path) unread)
  | .undecodableConfig fault => .error (.undecodableConfig fault)

/-! ## A whole run -/

/-- Runs the program. -/
def run (arguments : List String) (tree : FileTree) (input : String) : Except Breakdown Run :=
  let lines := inputLines input
  match CommandLine.read arguments with
  | .error refusal => .ok (runRefusal lines.length refusal)
  | .ok read =>
      match Options.resolve read (tree.find (Options.configPath read)) with
      | .error error => runOptionsError lines.length error
      | .ok options =>
          match options.script with
          | some path => runScript options.format path (tree.find path) lines.length
          | none => runSession options lines

end Lox
