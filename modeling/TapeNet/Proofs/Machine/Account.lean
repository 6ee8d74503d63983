import TapeNet.Loopback.Transport
import TapeNet.Proofs.Machine.Actions
import TapeNet.Proofs.Report.Record

/-!
# Accounts

A report is an account of what a machine did.  The actions of a step are the
executions that it records, one by one, and together with them the source, the
sink and the network say what was done to each.  All of this adds up from step
to step, so that a report agrees with the log from the start of a program on,
whatever stops it in between.
-/

namespace TapeNet

/-- The opcode that calls for a move of the network. -/
def Network.Move.opcode? : Network.Move → Option Opcode
  | setPort _ => some .setPort
  | setTimeout _ => some .setTimeout
  | enqueue _ => some .queueSend
  | push => some .flush
  | receive => some .receive
  | reset | settle | approach | collect => none

theorem Sink.write_counters (sink : Sink) (bytes : List UInt8) :
    (sink.write bytes).2.writes = sink.writes + 1 ∧ (sink.write bytes).2.flushes = sink.flushes := by
  unfold Sink.write
  dsimp only
  split
  · exact ⟨rfl, rfl⟩
  · split <;> exact ⟨rfl, rfl⟩

namespace Action

/-- The opcode that is executed once with an action. -/
def opcode? : Action → Option Opcode
  | single op _ => some op
  | read => some .input
  | write _ => some .output
  | test op _ => some op
  | call move => move.opcode?
  | flush | answered _ => none

def call? : Action → Option Network.Move
  | call move => some move
  | _ => none

/-- Whether an action is the answer of a step that did not find the end. -/
def isStep : Action → Bool
  | answered stop => stop != some .finished
  | _ => false

end Action

namespace Machine

/-- What leaves the source, the sink and the network to the program. -/
def Operation.leavesStreams : Operation → Bool
  | step | run _ | reset | reload _ | onTape _ | onCode _ => true
  | onNetwork _ | feed _ | drain _ => false

/-- The opcodes that were executed, one by one. -/
def executions (log : List Action) : List Opcode :=
  log.filterMap Action.opcode?

/-- How the network was called. -/
def calls (log : List Action) : List Network.Move :=
  log.filterMap Action.call?

theorem executions_append (first second : List Action) :
    executions (first ++ second) = executions first ++ executions second :=
  List.filterMap_append

theorem calls_append (first second : List Action) :
    calls (first ++ second) = calls first ++ calls second :=
  List.filterMap_append

theorem executions_singles {op : Opcode} (foldable : op.isFoldable = true) (count : Nat) :
    executions (List.replicate count (.single op foldable)) = List.replicate count op :=
  List.filterMap_replicate_of_some rfl

theorem calls_singles {op : Opcode} (foldable : op.isFoldable = true) (count : Nat) :
    calls (List.replicate count (.single op foldable)) = [] :=
  List.filterMap_replicate_of_none rfl

variable {σ : Type}

/-- What a log says was done to the source, the sink and the network was done to them. -/
structure Acted (transport : Transport σ) (first last : Machine σ) (log : List Action) : Prop where
  reads : last.source.reads = first.source.reads + (executions log).count .input
  writes : last.sink.writes = first.sink.writes + (executions log).count .output
  flushes : last.sink.flushes = first.sink.flushes + log.count .flush
  /-- A flush follows every write that was accepted, and no other. -/
  accepted : log.count .flush = log.count (.write true)
  network : Network.play transport (calls log) first.network first.world =
    (last.network, last.world)

/-- The report counts what a log says was executed. -/
structure Counted (first last : Machine σ) (log : List Action) : Prop where
  options : last.options = first.options
  steps : last.report.steps = first.report.steps + log.countP Action.isStep
  count : ∀ op, last.report.count op = first.report.count op + (executions log).count op
  total_le : first.report.total + log.countP Action.isStep ≤ last.report.total
  total_eq : first.options.fold = false →
    last.report.total = first.report.total + log.countP Action.isStep

variable {transport : Transport σ} {first middle last : Machine σ} {log later : List Action}

namespace Acted

theorem none (m : Machine σ) : Acted transport m m [] :=
  ⟨rfl, rfl, rfl, rfl, rfl⟩

theorem append (before : Acted transport first middle log)
    (after : Acted transport middle last later) : Acted transport first last (log ++ later) where
  reads := by rw [after.reads, before.reads, executions_append, List.count_append, Nat.add_assoc]
  writes := by rw [after.writes, before.writes, executions_append, List.count_append, Nat.add_assoc]
  flushes := by rw [after.flushes, before.flushes, List.count_append, Nat.add_assoc]
  accepted := by rw [List.count_append, List.count_append, before.accepted, after.accepted]
  network := by
    rw [calls_append, Network.play_append, before.network]
    exact after.network

/-- Repetitions on the tape leave the source, the sink and the network alone. -/
theorem singles (m : Machine σ) (tape : Tape) {op : Opcode} (foldable : op.isFoldable = true)
    (count : Nat) :
    Acted transport m { m with tape } (List.replicate count (.single op foldable)) := by
  have silent {other : Opcode} (single : other.isFoldable = false) :
      (executions (List.replicate count (.single op foldable))).count other = 0 := by
    rw [executions_singles, List.count_replicate, if_neg]
    intro same
    rw [beq_iff_eq] at same
    rw [same, single] at foldable
    cases foldable
  have others {action : Action} (other : Action.single op foldable ≠ action) :
      (List.replicate count (Action.single op foldable)).count action = 0 := by
    rw [List.count_replicate, if_neg (by simpa using other)]
  constructor
  · rw [silent rfl]
    rfl
  · rw [silent rfl]
    rfl
  · rw [others (by simp)]
    rfl
  · rw [others (by simp), others (by simp)]
  · rw [calls_singles]
    rfl

/-- An answer is no more than that. -/
theorem answered (acted : Acted transport first last log) (stop : Option Stop) :
    Acted transport first last (log ++ [.answered stop]) :=
  acted.append ⟨rfl, rfl, rfl, rfl, rfl⟩

end Acted

namespace Counted

theorem append (before : Counted first middle log) (after : Counted middle last later) :
    Counted first last (log ++ later) where
  options := after.options.trans before.options
  steps := by rw [after.steps, before.steps, List.countP_append, Nat.add_assoc]
  count op := by
    rw [after.count, before.count, executions_append, List.count_append, Nat.add_assoc]
  total_le := by
    have fewer := before.total_le
    have more := after.total_le
    rw [List.countP_append]
    omega
  total_eq off := by
    have off' : middle.options.fold = false := by rw [before.options, off]
    rw [after.total_eq off', before.total_eq off, List.countP_append, Nat.add_assoc]

/-- A step that records at least one execution, and one only without folding. -/
theorem of_record {op : Opcode} {count : Nat} (options : last.options = first.options)
    (recorded : last.report = first.report.record op count) (positive : 1 ≤ count)
    (once : first.options.fold = false → count = 1)
    (executed : executions log = List.replicate count op)
    (answers : log.countP Action.isStep = 1) : Counted first last log where
  options := options
  steps := by
    rw [recorded, answers]
    rfl
  count other := by
    rw [recorded, Report.count_record, executed, List.count_replicate]
    simp only [beq_iff_eq]
  total_le := by
    rw [recorded, Report.total_record, answers]
    exact Nat.add_le_add_left positive _
  total_eq off := by
    rw [recorded, Report.total_record, answers, once off]

/-- Nothing is recorded, executed or answered. -/
theorem of_same (options : last.options = first.options) (report : last.report = first.report)
    (executed : executions log = []) (unanswered : log.countP Action.isStep = 0) :
    Counted first last log where
  options := options
  steps := by rw [report, unanswered, Nat.add_zero]
  count op := by rw [report, executed, List.count_nil, Nat.add_zero]
  total_le := Nat.le_of_eq (by rw [report, unanswered, Nat.add_zero])
  total_eq _ := by rw [report, unanswered, Nat.add_zero]

end Counted

/-- A log says what was done, and the report counts it. -/
structure Accounted (transport : Transport σ) (first last : Machine σ) (log : List Action) :
    Prop where
  acted : Acted transport first last log
  counted : Counted first last log

namespace Accounted

theorem none (m : Machine σ) : Accounted transport m m [] :=
  ⟨.none m, .of_same rfl rfl rfl rfl⟩

theorem append (before : Accounted transport first middle log)
    (after : Accounted transport middle last later) :
    Accounted transport first last (log ++ later) :=
  ⟨before.acted.append after.acted, before.counted.append after.counted⟩

/-- The program and the tape are no part of an account. -/
theorem withProgram (accounted : Accounted transport first last log) (code : Code) (tape : Tape) :
    Accounted transport first { last with code, tape } log :=
  ⟨{ accounted.acted with }, { accounted.counted with }⟩

end Accounted

section

variable (transport : Transport σ)

theorem execute_streams (m : Machine σ) (op : Opcode) (count : Nat) :
    (m.execute transport op count).1.source = (m.perform transport op count).1.source ∧
      (m.execute transport op count).1.sink = (m.perform transport op count).1.sink ∧
      (m.execute transport op count).1.network = (m.perform transport op count).1.network ∧
      (m.execute transport op count).1.world = (m.perform transport op count).1.world := by
  unfold execute
  dsimp only
  split <;> exact ⟨rfl, rfl, rfl, rfl⟩

namespace Logged

theorem writeOut_acted (m : Machine σ) :
    Acted transport m (writeOut m).result.1 (writeOut m).log := by
  have counters := m.sink.write_counters [m.tape.cell]
  unfold writeOut emit
  generalize m.sink.write [m.tape.cell] = written at counters ⊢
  obtain ⟨answer, sink⟩ := written
  obtain ⟨writes, flushes⟩ := counters
  cases answer with
  | error fault => exact ⟨rfl, writes, flushes, rfl, rfl⟩
  | ok count => exact ⟨rfl, writes, congrArg (· + 1) flushes, rfl, rfl⟩

theorem onTape_acted {m : Machine σ} (inside : m.tape.WellFormed) {op : Opcode}
    (foldable : op.isFoldable = true) (count : Nat) :
    Acted transport m (m.perform transport op (count + 1)).1
      (onTape m op foldable (count + 1)).log := by
  rw [perform_foldable transport m foldable, onTape, singles_eq foldable count inside, WithLog.map]
  exact .singles m _ foldable _

/-- The actions of an opcode are what it does to the source, the sink and the network. -/
theorem perform_acted {m : Machine σ} (inside : m.tape.WellFormed) (op : Opcode) (count : Nat) :
    Acted transport m (m.perform transport op (count + 1)).1
      (perform transport m op (count + 1)).log := by
  cases op with
  | moveRight | moveLeft | increment | decrement => exact onTape_acted transport inside rfl count
  | output =>
      have acted := writeOut_acted transport m
      rw [writeOut, WithLog.map, emit_result] at acted
      exact acted
  | input =>
      simp only [Machine.perform, Machine.readIn]
      split <;> exact ⟨rfl, rfl, rfl, rfl, rfl⟩
  | loopStart =>
      simp only [Machine.perform, Machine.enterLoop]
      split <;> exact ⟨rfl, rfl, rfl, rfl, rfl⟩
  | loopEnd =>
      simp only [Machine.perform, Machine.repeatLoop]
      split <;> exact ⟨rfl, rfl, rfl, rfl, rfl⟩
  | receive =>
      simp only [Machine.perform, Machine.receiveIn]
      split <;> exact ⟨rfl, rfl, rfl, rfl, rfl⟩
  | flush =>
      simp only [Machine.perform, Machine.sendOut]
      split <;> exact ⟨rfl, rfl, rfl, rfl, rfl⟩
  | setTimeout | setPort | queueSend => exact ⟨rfl, rfl, rfl, rfl, rfl⟩

/-- The actions of an opcode are its executions, and none of them is the answer of a step. -/
theorem perform_executions {m : Machine σ} (inside : m.tape.WellFormed) {op : Opcode} {count : Nat}
    (once : op.isFoldable = false → count = 0) :
    executions (perform transport m op (count + 1)).log =
        List.replicate (m.tape.executed op (count + 1)) op ∧
      (perform transport m op (count + 1)).log.countP Action.isStep = 0 := by
  have row (foldable : op.isFoldable = true) :
      executions (onTape m op foldable (count + 1)).log =
          List.replicate (m.tape.executed op (count + 1)) op ∧
        (onTape m op foldable (count + 1)).log.countP Action.isStep = 0 := by
    rw [onTape, singles_eq foldable count inside, WithLog.map, List.countP_replicate]
    exact ⟨executions_singles foldable _, rfl⟩
  cases op with
  | moveRight | moveLeft | increment | decrement => exact row rfl
  | output =>
      obtain rfl := once rfl
      rw [Tape.executed_one inside, perform, writeOut, emit]
      split <;> exact ⟨rfl, rfl⟩
  | _ =>
      obtain rfl := once rfl
      rw [Tape.executed_one inside]
      exact ⟨rfl, rfl⟩

theorem execute_acted {m : Machine σ} (inside : m.tape.WellFormed) (op : Opcode) (count : Nat) :
    Acted transport m (m.execute transport op (count + 1)).1
      (perform transport m op (count + 1)).log := by
  obtain ⟨source, sink, network, world⟩ := execute_streams transport m op (count + 1)
  obtain ⟨reads, writes, flushes, accepted, played⟩ := perform_acted transport inside op count
  constructor
  · rw [source, reads]
  · rw [sink, writes]
  · rw [sink, flushes]
  · exact accepted
  · rw [network, world, played]

/-- An opcode that was popped leads to as many executions as are recorded, and to one answer. -/
theorem execute_accounted {m : Machine σ} (inside : m.tape.WellFormed) {op : Opcode} {count : Nat}
    (once : (m.options.fold && op.isFoldable) = false → count = 0) :
    Accounted transport m (m.execute transport op (count + 1)).1
      (answer (execute transport m op (count + 1))).log := by
  have single : op.isFoldable = false → count = 0 := by
    intro single
    exact once (by rw [single, Bool.and_false])
  obtain ⟨executed, unanswered⟩ := perform_executions transport inside single
  refine ⟨(execute_acted transport inside op count).answered _, ?_⟩
  apply Counted.of_record
  · exact execute_options transport m op (count + 1)
  · exact execute_report transport m op (count + 1)
  · exact (Tape.executed_bounds inside op count).1
  · intro off
    -- Without folding only the opcode itself was popped.
    obtain rfl := once (by rw [off, Bool.false_and])
    exact Tape.executed_one inside op
  · rw [answer, executions_append]
    exact (List.append_nil _).trans executed
  · have goes : (execute transport m op (count + 1)).result.2 ≠ some .finished := by
      rw [execute_result transport inside, execute_stop]
      exact (perform_stop_ne transport m op (count + 1)).1
    have answers : Action.isStep (.answered (execute transport m op (count + 1)).result.2) = true :=
      bne_iff_ne.mpr goes
    rw [answer, List.countP_append, List.countP_singleton, if_pos answers]
    exact congrArg (· + 1) unanswered

variable {m : Machine σ}

/-- One step: what it says in its log, it has done and counted. -/
theorem step_accounted (inside : m.WellFormed) :
    Accounted transport m (step transport m).result.1 (step transport m).log := by
  rw [step_result transport inside]
  rcases inside.step_cases transport with ⟨ended, finished⟩ | ⟨op, here, decoded, executed⟩
  · rw [finished, step_of_end transport (Array.getElem?_eq_none (Nat.le_of_eq ended.symm))]
    exact ⟨(Acted.none m).answered _, .of_same rfl rfl rfl rfl⟩
  · obtain ⟨count, length, once⟩ := m.batch_succ here
    rw [executed, step_of_opcode transport here decoded, length]
    have ready : ({ m with code := (m.batch op m.popped).2 } : Machine σ).tape.WellFormed :=
      inside.tape
    obtain ⟨acted, counted⟩ := execute_accounted transport ready once
    -- Popping changes the code alone, so the account of the opcode is that of the step.
    exact ⟨{ acted with }, { counted with }⟩

/-- A whole run: by induction on its budget, for an account goes on where the last one ends. -/
theorem run_accounted (inside : m.WellFormed) (budget : Nat) :
    Accounted transport m (run transport budget m).result.1 (run transport budget m).log := by
  induction budget generalizing m with
  | zero => exact .none m
  | succ budget ih =>
      have once := step_accounted transport inside
      have kept := step_wellFormed transport inside
      rw [← step_result transport inside] at kept
      unfold run
      generalize step transport m = logged at once kept ⊢
      obtain ⟨⟨next, stop⟩, log⟩ := logged
      cases stop with
      | none => exact once.append (ih kept)
      | some stop => exact once

theorem apply_accounted (inside : m.WellFormed) {operation : Operation}
    (leaves : operation.leavesStreams = true) :
    Accounted transport m (apply transport m operation).result (apply transport m operation).log := by
  cases operation with
  | step => exact step_accounted transport inside
  | run budget => exact run_accounted transport inside budget
  | reset | onTape | onCode => exact (Accounted.none m).withProgram _ _
  | reload text =>
      simp only [apply, Operation.apply, Machine.reload]
      split
      · exact (Accounted.none m).withProgram _ _
      · exact .none m
  | onNetwork | feed | drain => cases leaves

theorem operations_accounted (inside : m.WellFormed) {operations : List Operation}
    (leave : ∀ operation ∈ operations, operation.leavesStreams = true) :
    Accounted transport m (live transport operations m).result
      (live transport operations m).log := by
  induction operations generalizing m with
  | nil => exact .none m
  | cons operation operations ih =>
      obtain ⟨leaves, leave⟩ := List.forall_mem_cons.mp leave
      have first := apply_accounted transport inside leaves
      have kept := operation.apply_wellFormed transport inside
      rw [← apply_result transport inside] at kept
      exact first.append (ih kept leave)

end Logged

end

/-- The report of a machine is an exact account of what the machine did since it was started. -/
structure Account (transport : Transport σ) (first last : Machine σ) (log : List Action) : Prop where
  /-- Every step counts except one that finds the end. -/
  steps : last.report.steps = log.countP Action.isStep
  /-- Every action counts for the opcode that it executes, also if it fails. -/
  count : ∀ op, last.report.count op = log.countP fun action => action.opcode? == some op
  reads : last.source.reads = first.source.reads + last.report.count .input
  writes : last.sink.writes = first.sink.writes + last.report.count .output
  /-- The sink is flushed once for every write that did not answer with an error. -/
  flushes : last.sink.flushes = first.sink.flushes + log.count (.write true)
  /-- The calls that are counted made the network what it is. -/
  network : Network.play transport (calls log) first.network first.world =
    (last.network, last.world)
  steps_le : last.report.steps ≤ last.report.total
  steps_eq : first.options.fold = false → last.report.steps = last.report.total

/-- What is accounted for since a machine started with a blank report. -/
theorem Accounted.account (accounted : Accounted transport first last log)
    (blank : first.report = .blank) : Account transport first last log := by
  obtain ⟨acted, counted⟩ := accounted
  have none_yet (op : Opcode) : first.report.count op = 0 := by
    rw [blank]
    exact Opcode.Table.get_fill 0 op
  have nothing : first.report.total = 0 := by
    rw [blank]
    decide
  have steps : last.report.steps = log.countP Action.isStep := by
    rw [counted.steps, blank]
    exact Nat.zero_add _
  have count (op : Opcode) : last.report.count op = (executions log).count op := by
    rw [counted.count, none_yet, Nat.zero_add]
  have least := counted.total_le
  constructor
  · exact steps
  · intro op
    rw [count, executions, List.count_filterMap]
  · rw [acted.reads, count]
  · rw [acted.writes, count]
  · rw [acted.flushes, acted.accepted]
  · exact acted.network
  · rw [steps]
    omega
  · intro off
    rw [steps, counted.total_eq off, nothing, Nat.zero_add]

/--
Whatever stops a machine in between, and whether it folds or not: its report
is an exact account of the actions in its log, and to keep the log changes
nothing.
-/
theorem live_accounted (transport : Transport σ) (text : List UInt8) (options : Options) (world : σ)
    (source : Source) (sink : Sink) {operations : List Operation}
    (leave : ∀ operation ∈ operations, operation.leavesStreams = true) :
    ∃ log, Logged.live transport operations (about text options world source sink) =
        ⟨live transport operations (about text options world source sink), log⟩ ∧
      Account transport (about text options world source sink)
        (live transport operations (about text options world source sink)) log := by
  have inside := about_wellFormed text options world source sink
  have same := Logged.live_result transport inside operations
  have accounted := Logged.operations_accounted transport inside leave
  refine ⟨(Logged.live transport operations (about text options world source sink)).log, ?_, ?_⟩
  · rw [← same]
  · rw [← same]
    exact accounted.account rfl

/-- A text with a row of moves that leaves the tape, and with input, output and network calls. -/
def failingText : List UInt8 :=
  ("tl:net:++><<<+.,[-]*^;".toList).map Char.toUInt8

/-- Steps and runs on behind every failure, a reset, and another program. -/
def failingOperations : List Operation :=
  [.step, .run 2, .run 9, .step, .run 20, .reset, .run 3, .reload (.ofBytes [0x2E, 0x3C, 0x3C]),
    .run 5, .reload { script := [.failure "gone"] }, .step]

/-- A machine that folds, with a source of one byte and a sink that fails at first. -/
def failingMachine : Machine Loopback :=
  about failingText { fold := true } {} (.ofBytes [2]) { script := [.failure, .two] }

theorem live_accounted_failing :
    (∀ operation ∈ failingOperations, operation.leavesStreams = true) ∧
      ∃ log, Logged.live Loopback.transport failingOperations failingMachine =
          ⟨live Loopback.transport failingOperations failingMachine, log⟩ ∧
        Account Loopback.transport failingMachine
          (live Loopback.transport failingOperations failingMachine) log := by
  have leave : ∀ operation ∈ failingOperations, operation.leavesStreams = true := by decide
  exact ⟨leave, live_accounted Loopback.transport failingText { fold := true } {} (.ofBytes [2])
    { script := [.failure, .two] } leave⟩

end Machine

end TapeNet
