import TapeNet.CommandLine.Invocation
import TapeNet.Loopback.Transport

/-!
# The program

Carries out the command line of the process: the program text comes from a
file, input from standard input, and output goes to standard output as soon as
it is written.  The network is a loopback world in which nobody else takes
part.
-/

namespace TapeNet

namespace CommandLine

def systemText : IO.Error → String
  | .noFileOrDirectory _ _ _ => Entry.missingText
  | .interrupted _ code details
  | .permissionDenied _ code details
  | .inappropriateType _ code details
  | .invalidArgument _ code details
  | .resourceExhausted _ code details
  | .noSuchThing _ code details
  | .otherError code details => details ++ " (os error " ++ toString code ++ ")"
  | other => toString other

/-- Opens the file at `path`; a directory can be opened, but not read. -/
def openFile (path : String) : IO (Except String Source) := do
  try
    let bytes ← IO.FS.readBinFile path
    return .ok (.ofBytes bytes.toList)
  catch failure =>
    let text := systemText failure
    if text = Entry.directoryText then
      return .ok Entry.directory.source
    else
      return .error text

/-- The variables of the process that this library knows. -/
def environment : IO Environment := do
  let names := [limitVariable, "TL_FOLD_REPEATS", "TL_NET_LISTEN_ADDR", "TL_NET_TARGET_ADDR"]
  names.filterMapM fun name => do
    let value ← IO.getEnv name
    return value.map fun text => (name, text.toUTF8.toList)

/-- Hands what a machine has written to standard output. -/
def deliver (output : IO.FS.Stream) (m : Machine Loopback) : IO (Machine Loopback) := do
  if m.sink.taken.isEmpty then
    return m
  output.write ⟨m.sink.taken⟩
  output.flush
  return { m with sink := {} }

/-- Gives a machine the byte that its next instruction is about to read. -/
def provide (input : IO.FS.Stream) (m : Machine Loopback) : IO (Machine Loopback) := do
  if m.code.pop.1 = some Opcode.input.byte then
    let bytes ← input.read 1
    return { m with source := .ofBytes bytes.toList }
  else
    return m

/-- Runs a machine within a limit, or without one, on the standard streams. -/
partial def perform (input output : IO.FS.Stream) (limit : Option Nat) (m : Machine Loopback) :
    IO (Machine Loopback × Stop) := do
  let m ← deliver output m
  if limit = some 0 then
    return (m, .budgetSpent)
  let m ← provide input m
  match m.step Loopback.transport with
  | (m, none) => perform input output (limit.map (· - 1)) m
  | (m, some stop) => return (m, stop)

/-- Carries out a command and gives the exit code. -/
def carryOut (command : Command) (env : Environment) : IO UInt32 := do
  let (arguments, limit) :=
    match command with
    | .run arguments limit => (arguments, some limit)
    | .runUnlimited arguments => (arguments, none)
  let opened ← openFile arguments.file
  let output ← IO.getStdout
  match Session.prepare arguments (.ofEnvironment env) opened {} {} ({} : Loopback) with
  | .error (failure, sink) =>
    output.write ⟨sink.taken⟩
    IO.eprint failure.text
    return 1
  | .ok m =>
    let (m, stop) ← perform (← IO.getStdin) output limit m
    output.putStr (closing arguments stop m.report)
    output.flush
    IO.eprint (remarks arguments m.report)
    return if stop = .finished then 0 else 1

end CommandLine

end TapeNet

open TapeNet.CommandLine in
def main (arguments : List String) : IO UInt32 := do
  let env ← environment
  match Command.ofList arguments (Invocation.setting? env limitVariable) with
  | .ok command => carryOut command env
  | .error refusal =>
    let done := Invocation.refused refusal ()
    (← IO.getStdout).write ⟨done.output⟩
    IO.eprint done.errors
    return UInt32.ofNat done.exitCode
