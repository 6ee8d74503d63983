import TapeNet.Code
import TapeNet.Network
import TapeNet.Report
import TapeNet.Sink
import TapeNet.Source
import TapeNet.Stop
import TapeNet.Tape

/-!
# The machine

A machine holds a program and everything that its instructions work on: the
tape, the network and the world behind it, the source of input, the sink of
output.  It executes one instruction at a time, or as many as a budget allows,
and keeps account of what it did.
-/

namespace TapeNet

/-- A program and the state of everything that it works on. -/
structure Machine (σ : Type) where
  code : Code
  tape : Tape
  network : Network
  world : σ
  source : Source := {}
  sink : Sink := {}
  options : Options := {}
  report : Report := .blank

namespace Machine

variable {σ : Type}

/-- A machine that is about to start a program. -/
def start (code : Code) (options : Options) (world : σ) : Machine σ :=
  { code, tape := .blank, network := .fresh options.addresses, world, options }

/-- Reads a program text and makes a machine that is about to start it. -/
def load (text : Source) (options : Options) (world : σ) : Except Stop (Machine σ) :=
  match text.readAll with
  | .ok bytes => .ok (start (.parse bytes) options world)
  | .error reason => .error (.unreadable reason)

/-- Replaces the program; if its text cannot be read, nothing changes. -/
def reload (m : Machine σ) (text : Source) : Machine σ × Option Stop :=
  match text.readAll with
  | .ok bytes => ({ m with code := .parse bytes }, none)
  | .error reason => (m, some (.unreadable reason))

/-- Goes back to the first instruction and a blank tape; all else is kept. -/
def reset (m : Machine σ) : Machine σ :=
  { m with code := m.code.reset, tape := .blank }

@[inline] def moved (m : Machine σ) (move : Tape → Tape × Bool) : Machine σ × Option Stop :=
  match m with
  | { code, tape, network, world, source, sink, options, report } =>
    let (tape, inside) := move tape
    ({ code, tape, network, world, source, sink, options, report },
      if inside then none else some .outOfBounds)

@[inline] def changed (m : Machine σ) (change : Tape → Tape) : Machine σ × Option Stop :=
  ({ m with tape := change m.tape }, none)

def writeOut (m : Machine σ) : Machine σ × Option Stop :=
  let (written, sink) := m.sink.emit m.tape.cell
  ({ m with sink }, if written then none else some .noOutput)

def readIn (m : Machine σ) : Machine σ × Option Stop :=
  let (byte, source) := m.source.readByte
  match byte with
  | some byte => ({ m with tape := m.tape.put byte, source }, none)
  | none => ({ m with source }, some .noInput)

/-- Begins a loop: with a zero cell, execution goes on behind its end. -/
def enterLoop (m : Machine σ) : Machine σ × Option Stop :=
  if m.tape.cell = 0 then
    ({ m with code := (m.code.jumpForward Opcode.loopEnd.byte).2 }, none)
  else
    (m, none)

/-- Ends a round of a loop: with a cell that is not zero, execution goes on behind its start. -/
def repeatLoop (m : Machine σ) : Machine σ × Option Stop :=
  if m.tape.cell = 0 then
    (m, none)
  else
    ({ m with code := (m.code.jumpBackward Opcode.loopStart.byte).2 }, none)

def receiveIn (transport : Transport σ) (m : Machine σ) : Machine σ × Option Stop :=
  let (byte, network, world) := m.network.receive transport m.world
  match byte with
  | some byte => ({ m with tape := m.tape.put byte, network, world }, none)
  | none => ({ m with network, world }, some .unanswered)

/-- Sends what waits in the network; the current cell becomes zero if all of it went out. -/
def sendOut (transport : Transport σ) (m : Machine σ) : Machine σ × Option Stop :=
  let (done, network, world) := m.network.push transport m.world
  match done with
  | some true => ({ m with tape := m.tape.put 0, network, world }, none)
  | some false => ({ m with network, world }, none)
  | none => ({ m with network, world }, some .unanswered)

/-- Executes `count` repetitions of an opcode that was just popped. -/
def perform (transport : Transport σ) (m : Machine σ) (op : Opcode) (count : Nat) :
    Machine σ × Option Stop :=
  match op with
  | .moveRight => m.moved (·.advance count)
  | .moveLeft => m.moved (·.retreat count)
  | .increment => m.changed (·.add (UInt8.ofNat (count % 256)))
  | .decrement => m.changed (·.sub (UInt8.ofNat (count % 256)))
  | .output => m.writeOut
  | .input => m.readIn
  | .loopStart => m.enterLoop
  | .loopEnd => m.repeatLoop
  | .setTimeout => ({ m with network := m.network.setTimeout m.tape.cell }, none)
  | .setPort =>
    let (network, world) := m.network.setPort transport m.tape.cell m.world
    ({ m with network, world }, none)
  | .receive => m.receiveIn transport
  | .queueSend => ({ m with network := m.network.enqueue m.tape.cell }, none)
  | .flush => m.sendOut transport

def distance (first second : Nat) : Nat :=
  (first - second) + (second - first)

/--
Executes `count` repetitions of an opcode that was just popped, and accounts
for them.  A move that leaves the tape is over with the repetition that fails;
those behind it are given back.
-/
def execute (transport : Transport σ) (m : Machine σ) (op : Opcode) (count : Nat) :
    Machine σ × Option Stop :=
  let pointer := m.tape.pointer
  let (m, stop) := m.perform transport op count
  if stop = some .outOfBounds then
    let executed := distance m.tape.pointer pointer + 1
    ({ m with
        code := m.code.rewind (count - executed)
        report := m.report.record op executed },
      stop)
  else
    ({ m with report := m.report.record op count }, stop)

/--
How often one step executes an opcode that was popped, and the code behind
everything that the step pops: with folding, all immediate repetitions.
-/
def batch (m : Machine σ) (op : Opcode) (code : Code) : Nat × Code :=
  if m.options.fold && op.isFoldable then code.popRepeats else (1, code)

/--
Executes the next instruction, or with folding all its immediate repetitions
at once.
-/
def step (transport : Transport σ) (m : Machine σ) : Machine σ × Option Stop :=
  match m.code.pop with
  | (none, _) => (m, some .finished)
  | (some byte, code) =>
    match Opcode.decode? byte code.extensions with
    | none => ({ m with code }, some (.unknownByte byte))
    | some op =>
      let (count, code) := m.batch op code
      ({ m with code } : Machine σ).execute transport op count

/-- Executes up to `budget` steps and says why it ended. -/
def run (transport : Transport σ) : Nat → Machine σ → Machine σ × Stop
  | 0, m => (m, .budgetSpent)
  | budget + 1, m =>
    match m.step transport with
    | (m, none) => run transport budget m
    | (m, some stop) => (m, stop)

def largestBudget : Nat := Nat.pow 2 64 - 1

/--
Runs without a limit, in rounds of the largest budget.  `rounds` bounds their
number, for a run may never end; the result then says that the budget is spent.
-/
def runRounds (transport : Transport σ) : Nat → Machine σ → Machine σ × Stop
  | 0, m => (m, .budgetSpent)
  | rounds + 1, m =>
    match m.run transport largestBudget with
    | (m, .budgetSpent) => runRounds transport rounds m
    | (m, stop) => (m, stop)

/-- Closes the network of a machine that is not needed any more. -/
def close (transport : Transport σ) (m : Machine σ) : Machine σ :=
  let (network, world) := m.network.reset transport m.world
  { m with network, world }

end Machine

end TapeNet
