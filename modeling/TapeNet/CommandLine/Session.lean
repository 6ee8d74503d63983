import TapeNet.CommandLine.Arguments
import TapeNet.Machine

/-!
# Sessions

A session loads a program, announces the network if the program can use it,
and runs it.  A program that cannot be loaded or announced is not started.
-/

namespace TapeNet

namespace CommandLine

/-- Why a program was not started: what went wrong, and its causes, the outermost first. -/
structure Failure where
  message : String
  causes : List String
  deriving DecidableEq, Repr

namespace Failure

/-- The program at `file` could not be loaded. -/
def loading (file : String) (causes : List String) : Failure :=
  ⟨"Failed to load program: " ++ file, causes⟩

def numbered (start : Nat) : List String → String
  | [] => ""
  | cause :: rest =>
    "    " ++ Numeral.decimal start ++ ": " ++ cause ++ "\n" ++ numbered (start + 1) rest

def text (failure : Failure) : String :=
  "Error: " ++ failure.message ++ "\n" ++
    match failure.causes with
    | [] => ""
    | [cause] => "\nCaused by:\n    " ++ cause ++ "\n"
    | causes => "\nCaused by:\n" ++ numbered 0 causes

end Failure

/-- What is written before a program that can use the network. -/
def announcement : String := "Network Extension Enabled\n\n"

/-- How a session ended. -/
inductive Session (σ : Type) where
  | ran (machine : Machine σ) (stop : Stop)
  /-- The program was not started; `sink` is what the output has become. -/
  | failed (failure : Failure) (sink : Sink)

namespace Session

variable {σ : Type}

/-- The options of a run: those of the environment, with folding if the arguments ask for it. -/
def options (arguments : RunArguments) (chosen : Options) : Options :=
  { chosen with fold := chosen.fold || arguments.fold }

/-- Makes a machine for the program that was opened, or not. -/
def load (arguments : RunArguments) (chosen : Options) (opened : Except String Source)
    (world : σ) : Except Failure (Machine σ) :=
  match opened with
  | .error reason => .error (.loading arguments.file [reason])
  | .ok text =>
    match Machine.load text (options arguments chosen) world with
    | .ok m => .ok m
    | .error stop =>
      match stop with
      | .unreadable reason => .error (.loading arguments.file [stop.message, reason])
      | _ => .error (.loading arguments.file [stop.message])

/-- Writes the announcement if the program can use the network. -/
def announce (m : Machine σ) (sink : Sink) : Except String Unit × Sink :=
  if m.code.hasExtensions .net then
    sink.announce announcement.toUTF8.toList
  else
    (.ok (), sink)

/-- Loads and announces a program: the machine that is ready to run it. -/
def prepare (arguments : RunArguments) (chosen : Options) (opened : Except String Source)
    (source : Source) (sink : Sink) (world : σ) : Except (Failure × Sink) (Machine σ) :=
  match load arguments chosen opened world with
  | .error failure => .error (failure, sink)
  | .ok m =>
    match announce m sink with
    | (.error reason, sink) => .error (⟨reason, []⟩, sink)
    | (.ok (), sink) => .ok { m with source, sink }

/-- Runs within a limit, or in so many rounds without one. -/
def drive (transport : Transport σ) (rounds : Nat) (limit : Option Nat) (m : Machine σ) :
    Machine σ × Stop :=
  match limit with
  | some limit => m.run transport limit
  | none => m.runRounds transport rounds

def execute (transport : Transport σ) (rounds : Nat) (arguments : RunArguments)
    (chosen : Options) (opened : Except String Source) (limit : Option Nat)
    (source : Source) (sink : Sink) (world : σ) : Session σ :=
  match prepare arguments chosen opened source sink world with
  | .error (failure, sink) => .failed failure sink
  | .ok m =>
    let (m, stop) := drive transport rounds limit m
    .ran m stop

end Session

end CommandLine

end TapeNet
