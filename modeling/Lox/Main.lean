import Lox.Program

/-!
# The command

The program on the files and the streams of the machine.  Each stage of a run is carried out with
the file that it names; a session takes its lines from the standard input as they come.
-/

namespace Lox

/-- The number of an error says that a name is too long, as the system counts its errors: upward, or
downward from zero. -/
def isNameTooLong (number : UInt32) : Bool :=
  number == 36 || number == -36

/-- What looking for the file at a path gives. -/
def lookFor (path : Path) : IO (Except Obstacle (List UInt8)) := do
  try
    let bytes ← IO.FS.readBinFile path.toString
    return .ok bytes.toList
  catch
    | .invalidArgument _ number _ =>
        return .error (if isNameTooLong number then .nameTooLong else .absent)
    | _ => return .error .absent

/-- Writes a transcript, each text on its channel. -/
def emit (transcript : Transcript) : IO Unit :=
  transcript.forM fun write => do
    let stream ← match write.channel with
      | .output => IO.getStdout
      | .errors => IO.getStderr
    stream.putStr write.text
    stream.flush

/-- Writes what a run leaves behind and gives the number of its exit code. -/
def finish (run : Run) : IO UInt32 := do
  emit run.transcript
  return run.ending.code.value.toUInt32

/-- Goes on with a session that has some diagnostics and some lines at hand.  Further lines are read
when those are used up. -/
partial def hold (settings : SessionSettings) (diagnostics : List Diagnostic)
    (atHand : List String) : IO ExitCode := do
  emit (Outcome.output settings.prompt).transcript
  let lines ← if atHand.isEmpty then inputLines <$> (← IO.getStdin).getLine else pure atHand
  match lines with
  | [] => return .ofDiagnostics diagnostics
  | line :: rest =>
      match settings.answer? line with
      | none => return .ofDiagnostics diagnostics
      | some answer =>
          emit answer.transcript
          hold settings (diagnostics ++ answer.diagnostics) rest

/-- The result of a stage that has not broken the program down. -/
def orBreakDown : Except Breakdown α → IO α
  | .error breakdown => throw (IO.userError breakdown.message)
  | .ok result => pure result

/-- Runs the program with the arguments of a command line. -/
def runCommand (arguments : List String) : IO UInt32 := do
  match CommandLine.read arguments with
  | .error refusal => finish (runRefusal 0 refusal)
  | .ok read =>
      match Options.resolve read (← lookFor (Options.configPath read)) with
      | .error error => finish (← orBreakDown (runOptionsError 0 error))
      | .ok options =>
          match options.script with
          | some path => finish (← orBreakDown (runScript options.format path (← lookFor path) 0))
          | none =>
              let settings ← orBreakDown options.sessionSettings
              return (← hold settings [] []).value.toUInt32

end Lox

/-- The program. -/
def main (arguments : List String) : IO UInt32 :=
  Lox.runCommand arguments
