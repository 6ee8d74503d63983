import TapeNet.CommandLine.Files
import TapeNet.CommandLine.Session
import TapeNet.Report.Json
import TapeNet.Report.Table

/-!
# Invocations

What a whole command line leads to: the bytes on the two outputs and the exit
code, which is 0 for success, 1 for a program that did not end well and 2 for
a command line that makes no sense.
-/

namespace TapeNet

namespace CommandLine

/-- The version that is told to the user. -/
def versionMessage : String := "0.3.0 (extensions: net)"

def versionText : String := "toylang " ++ versionMessage ++ "\n"

/-- The environment variable that holds a limit. -/
def limitVariable : String := "TL_EXECUTION_LIMIT"

def helpText : String :=
  "Usage: toylang run <FILE> [--limit <LIMIT>] [--report] [--report-json] [--fold]\n" ++
    "       toylang run-unlimited <FILE> [--report] [--report-json] [--fold]\n" ++
    "       toylang --version\n"

/-- What is written after a run: how it ended, and the report if it is asked for. -/
def closing (arguments : RunArguments) (stop : Stop) (report : Report) : String :=
  (if stop = .finished then "\n"
    else "\n\nProgram terminated with error: " ++ stop.message ++ "\n") ++
    if arguments.reportJson then report.prettyJson ++ "\n" else ""

/-- What is told about a run besides its output. -/
def remarks (arguments : RunArguments) (report : Report) : String :=
  if arguments.report then report.table else ""

/-- What an invocation leaves behind. -/
structure Invocation (σ : Type) where
  exitCode : Nat
  output : Array UInt8 := #[]
  errors : String := ""
  world : σ

namespace Invocation

variable {σ : Type}

/-- The bytes behind which a text has been written. -/
def appendText (bytes : Array UInt8) (text : String) : Array UInt8 :=
  bytes ++ text.toUTF8.toList.toArray

def refused (refusal : Refusal) (world : σ) : Invocation σ :=
  match refusal with
  | .help => { exitCode := 0, output := appendText #[] helpText, world }
  | .version => { exitCode := 0, output := appendText #[] versionText, world }
  | _ => { exitCode := 2, errors := "error: " ++ refusal.message ++ "\n", world }

/-- A session has ended; its network is closed. -/
def ofSession (transport : Transport σ) (arguments : RunArguments) (world : σ) :
    Session σ → Invocation σ
  | .failed failure sink =>
    { exitCode := 1, output := sink.taken, errors := failure.text, world }
  | .ran m stop =>
    { exitCode := if stop = .finished then 0 else 1
      output := appendText m.sink.taken (closing arguments stop m.report)
      errors := remarks arguments m.report
      world := (m.close transport).world }

/-- The text of a variable, if it is set; the inner value is missing if it is no text. -/
def setting? (env : Environment) (name : String) : Option (Option String) :=
  (env.lookup name).map fun bytes => String.fromUTF8? ⟨bytes.toArray⟩

def ofCommand (transport : Transport σ) (rounds : Nat) (files : Files) (env : Environment)
    (source : Source) (world : σ) (command : Command) : Invocation σ :=
  let (arguments, limit) :=
    match command with
    | .run arguments limit => (arguments, some limit)
    | .runUnlimited arguments => (arguments, none)
  ofSession transport arguments world
    (Session.execute transport rounds arguments (.ofEnvironment env)
      (files.openSource arguments.file) limit source {} world)

/-- Carries out a command line. -/
def ofArguments (transport : Transport σ) (rounds : Nat) (files : Files) (env : Environment)
    (source : Source) (world : σ) (arguments : List String) : Invocation σ :=
  match Command.ofList arguments (setting? env limitVariable) with
  | .error refusal => refused refusal world
  | .ok command => ofCommand transport rounds files env source world command

end Invocation

end CommandLine

end TapeNet
