import TapeNet.Proofs.Machine.Life

/-!
# Actions

What a machine does, one action after the other.  A logged machine works with
single actions: it moves the pointer by one cell, changes a cell by one, reads
or writes one byte, flushes, looks at a cell for a bracket, or calls the
network.  It writes down each of them where it is taken, and the answer that
each step gives.  What comes of it is what comes of the machine itself, which
makes all repetitions of an opcode at once.
-/

namespace TapeNet

/-- One thing that a machine does. -/
inductive Action where
  /-- One repetition of an opcode that may be folded is attempted. -/
  | single (op : Opcode) (foldable : op.isFoldable = true)
  /-- The source is asked for one byte. -/
  | read
  /-- The sink is handed one byte; `accepted` tells that it did not answer with an error. -/
  | write (accepted : Bool)
  | flush
  /-- A bracket looks at the current cell. -/
  | test (op : Opcode) (bracket : op = .loopStart ∨ op = .loopEnd)
  /-- The network is called. -/
  | call (move : Network.Move)
  /-- A step gives its answer. -/
  | answered (stop : Option Stop)
  deriving DecidableEq

/-- A result, and the actions that led to it. -/
structure WithLog (α : Type) where
  result : α
  log : List Action

namespace WithLog

variable {α β : Type}

def map (f : α → β) (logged : WithLog α) : WithLog β :=
  ⟨f logged.result, logged.log⟩

/-- The same result, with other actions before those that led to it. -/
def after (logged : WithLog α) (earlier : List Action) : WithLog α :=
  ⟨logged.result, earlier ++ logged.log⟩

end WithLog

namespace Machine

variable {σ : Type}

namespace Logged

/--
Repeats an opcode that may be folded up to `count` times, one repetition after
the other; one that leaves the tape is the last.
-/
def singles (op : Opcode) (foldable : op.isFoldable = true) :
    Nat → Tape → WithLog (Tape × Bool)
  | 0, tape => ⟨(tape, true), []⟩
  | count + 1, tape =>
    match tape.repeated op 1 with
    | (tape, false) => ⟨(tape, false), [.single op foldable]⟩
    | (tape, true) => (singles op foldable count tape).after [.single op foldable]

/-- Writes one byte and, unless the write failed, flushes. -/
def emit (sink : Sink) (byte : UInt8) : WithLog (Bool × Sink) :=
  match sink.write [byte] with
  | (.error _, sink) => ⟨(false, sink), [.write false]⟩
  | (.ok count, sink) =>
    match sink.flush with
    | (flushed, sink) => ⟨(flushed && count == 1, sink), [.write true, .flush]⟩

def onTape (m : Machine σ) (op : Opcode) (foldable : op.isFoldable = true) (count : Nat) :
    WithLog (Machine σ × Option Stop) :=
  (singles op foldable count m.tape).map fun (tape, stays) =>
    ({ m with tape }, if stays then none else some .outOfBounds)

def writeOut (m : Machine σ) : WithLog (Machine σ × Option Stop) :=
  (emit m.sink m.tape.cell).map fun (written, sink) =>
    ({ m with sink }, if written then none else some .noOutput)

section

variable (transport : Transport σ)

/-- Executes `count` repetitions of an opcode that was just popped. -/
def perform (m : Machine σ) (op : Opcode) (count : Nat) : WithLog (Machine σ × Option Stop) :=
  match op with
  | .moveRight => onTape m .moveRight rfl count
  | .moveLeft => onTape m .moveLeft rfl count
  | .increment => onTape m .increment rfl count
  | .decrement => onTape m .decrement rfl count
  | .output => writeOut m
  | .input => ⟨m.readIn, [.read]⟩
  | .loopStart => ⟨m.enterLoop, [.test .loopStart (.inl rfl)]⟩
  | .loopEnd => ⟨m.repeatLoop, [.test .loopEnd (.inr rfl)]⟩
  | .setTimeout =>
    ⟨({ m with network := m.network.setTimeout m.tape.cell }, none),
      [.call (.setTimeout m.tape.cell)]⟩
  | .setPort =>
    let (network, world) := m.network.setPort transport m.tape.cell m.world
    ⟨({ m with network, world }, none), [.call (.setPort m.tape.cell)]⟩
  | .receive => ⟨m.receiveIn transport, [.call .receive]⟩
  | .queueSend =>
    ⟨({ m with network := m.network.enqueue m.tape.cell }, none), [.call (.enqueue m.tape.cell)]⟩
  | .flush => ⟨m.sendOut transport, [.call .push]⟩

/-- Executes an opcode and accounts for it. -/
def execute (m : Machine σ) (op : Opcode) (count : Nat) : WithLog (Machine σ × Option Stop) :=
  (perform transport m op count).map fun (last, stop) =>
    if stop = some .outOfBounds then
      let executed := distance last.tape.pointer m.tape.pointer + 1
      ({ last with
          code := last.code.rewind (count - executed)
          report := last.report.record op executed },
        stop)
    else
      ({ last with report := last.report.record op count }, stop)

/-- Gives the answer of a step. -/
def answer (logged : WithLog (Machine σ × Option Stop)) : WithLog (Machine σ × Option Stop) :=
  ⟨logged.result, logged.log ++ [.answered logged.result.2]⟩

/-- Executes the next instruction, or with folding all its immediate repetitions. -/
def step (m : Machine σ) : WithLog (Machine σ × Option Stop) :=
  match m.code.pop with
  | (none, _) => answer ⟨(m, some .finished), []⟩
  | (some byte, code) =>
    match Opcode.decode? byte code.extensions with
    | none => answer ⟨({ m with code }, some (.unknownByte byte)), []⟩
    | some op =>
      let (count, code) := m.batch op code
      answer (execute transport { m with code } op count)

/-- Executes up to `budget` steps and says why it ended. -/
def run : Nat → Machine σ → WithLog (Machine σ × Stop)
  | 0, m => ⟨(m, .budgetSpent), []⟩
  | budget + 1, m =>
    match step transport m with
    | ⟨(m, none), log⟩ => (run budget m).after log
    | ⟨(m, some stop), log⟩ => ⟨(m, stop), log⟩

/-- The machine after an operation; what is done by hand is no action of the machine. -/
def apply (m : Machine σ) : Operation → WithLog (Machine σ)
  | .step => (step transport m).map Prod.fst
  | .run budget => (run transport budget m).map Prod.fst
  | operation => ⟨operation.apply transport m, []⟩

/-- The machine after several operations. -/
def live : List Operation → Machine σ → WithLog (Machine σ)
  | [], m => ⟨m, []⟩
  | operation :: operations, m =>
    match apply transport m operation with
    | ⟨m, log⟩ => (live operations m).after log

end

/--
One repetition at a time leads to the same tape as all of them at once, and
takes as many attempts as are executed.
-/
theorem singles_eq {op : Opcode} (foldable : op.isFoldable = true) (count : Nat) {tape : Tape}
    (inside : tape.WellFormed) :
    singles op foldable (count + 1) tape =
      ⟨tape.repeated op (count + 1),
        List.replicate (tape.executed op (count + 1)) (.single op foldable)⟩ := by
  induction count generalizing tape with
  | zero =>
      rw [Tape.executed_one inside]
      unfold singles
      split <;> next once => rw [once]; rfl
  | succ count ih =>
      -- Either the first attempt fails and is the only one, or the others go on from its tape.
      unfold singles
      split
      · next once =>
          have leaves : (tape.repeated op 1).2 = false := congrArg Prod.snd once
          have stuck : tape.repeated op 1 = (tape, false) :=
            Tape.repeated_of_leaves inside leaves 0
          rw [Tape.repeated_of_leaves inside leaves, Tape.executed_of_leaves inside leaves]
          rw [once] at stuck
          rw [stuck]
          rfl
      · next moved once =>
          have stays : (tape.repeated op 1).2 = true := congrArg Prod.snd once
          have kept := inside.repeated op 1
          rw [Tape.repeated_succ stays, Tape.executed_succ stays inside]
          rw [once] at kept ⊢
          rw [ih kept]
          rfl

/-- The second of three moves to the left fails on the first cell, and there is no third. -/
example : singles .moveLeft rfl 3 ⟨#[0, 0], 1⟩ =
    ⟨(⟨#[0, 0], 0⟩, false), [.single .moveLeft rfl, .single .moveLeft rfl]⟩ := by
  rfl

theorem emit_result (sink : Sink) (byte : UInt8) : (emit sink byte).result = sink.emit byte := by
  unfold emit Sink.emit
  cases sink.write [byte] with
  | mk answer sink =>
      cases answer with
      | error => rfl
      | ok => rfl

theorem onTape_result {m : Machine σ} (inside : m.tape.WellFormed) {op : Opcode}
    (foldable : op.isFoldable = true) (transport : Transport σ) (count : Nat) :
    (onTape m op foldable (count + 1)).result = m.perform transport op (count + 1) := by
  rw [onTape, singles_eq foldable count inside, perform_foldable transport m foldable]
  rfl

section

variable (transport : Transport σ)

theorem perform_result {m : Machine σ} (inside : m.tape.WellFormed) (op : Opcode) (count : Nat) :
    (perform transport m op (count + 1)).result = m.perform transport op (count + 1) := by
  cases op with
  | moveRight | moveLeft | increment | decrement => exact onTape_result inside rfl transport count
  | output =>
      simp only [perform, writeOut, WithLog.map, emit_result]
      rfl
  | _ => rfl

theorem execute_result {m : Machine σ} (inside : m.tape.WellFormed) (op : Opcode) (count : Nat) :
    (execute transport m op (count + 1)).result = m.execute transport op (count + 1) := by
  rw [execute, WithLog.map, perform_result transport inside]
  rfl

theorem step_of_end {m : Machine σ} (ended : m.code.bytes[m.code.pc]? = none) :
    step transport m = ⟨(m, some .finished), [.answered (some .finished)]⟩ := by
  have nothing : m.code.pop = (none, m.code) := Code.pop_eq_none_iff.mpr ended
  simp only [step, nothing]
  rfl

theorem step_of_opcode {m : Machine σ} {op : Opcode}
    (here : m.code.bytes[m.code.pc]? = some op.byte)
    (decoded : Opcode.decode? op.byte m.code.extensions = some op) :
    step transport m =
      answer (execute transport { m with code := (m.batch op m.popped).2 } op
        (m.batch op m.popped).1) := by
  have next : m.code.pop = (some op.byte, m.popped) := Code.pop_eq_some_iff.mpr ⟨here, rfl⟩
  simp only [step, next, popped, decoded]

variable {m : Machine σ}

theorem step_result (inside : m.WellFormed) : (step transport m).result = m.step transport := by
  rcases inside.step_cases transport with ⟨ended, finished⟩ | ⟨op, here, decoded, executed⟩
  · rw [step_of_end transport (Array.getElem?_eq_none (Nat.le_of_eq ended.symm)), finished]
  · obtain ⟨count, length, _⟩ := m.batch_succ here
    rw [step_of_opcode transport here decoded, executed, length]
    exact execute_result transport (m := { m with code := (m.batch op m.popped).2 }) inside.tape op
      count

theorem run_result (inside : m.WellFormed) (budget : Nat) :
    (run transport budget m).result = m.run transport budget := by
  induction budget generalizing m with
  | zero => rfl
  | succ budget ih =>
      have same := step_result transport inside
      have kept := step_wellFormed transport inside
      unfold run Machine.run
      rw [← same] at kept ⊢
      generalize step transport m = logged at kept ⊢
      obtain ⟨⟨next, stop⟩, log⟩ := logged
      cases stop with
      | none => exact ih kept
      | some stop => rfl

theorem apply_result (inside : m.WellFormed) (operation : Operation) :
    (apply transport m operation).result = operation.apply transport m := by
  cases operation with
  | step => exact congrArg Prod.fst (step_result transport inside)
  | run budget => exact congrArg Prod.fst (run_result transport inside budget)
  | reset | reload | onTape | onCode | onNetwork | feed | drain => rfl

/-- To log what a machine does changes nothing. -/
theorem live_result (inside : m.WellFormed) (operations : List Operation) :
    (live transport operations m).result = Machine.live transport operations m := by
  induction operations generalizing m with
  | nil => rfl
  | cons operation operations ih =>
      have kept := operation.apply_wellFormed transport inside
      rw [live, Machine.live, ← apply_result transport inside]
      rw [← apply_result transport inside] at kept
      exact ih kept

end

end Logged

end Machine

end TapeNet
