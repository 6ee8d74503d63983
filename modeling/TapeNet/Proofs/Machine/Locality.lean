import TapeNet.Loopback.Transport
import TapeNet.Proofs.Machine.Isolation
import TapeNet.Proofs.Machine.Output
import TapeNet.Proofs.Machine.Progress
import TapeNet.Proofs.Report.Record
import TapeNet.Proofs.Tape.Cell

/-!
# Locality

A step changes at most the current cell or moves the pointer, never both, and
every other part of a machine is left to the opcodes that are meant for it.
From step to step the pointer therefore gets no further than the moves to the
right that are counted, and a cell that no step starts from stays as it was.
-/

namespace TapeNet

namespace Opcode

/-- The opcodes that can change the current cell. -/
def changers : List Opcode :=
  [.increment, .decrement, .input, .receive, .flush]

/-- The opcodes that can move the pointer. -/
def movers : List Opcode :=
  [.moveRight, .moveLeft]

theorem isFoldable_of_mem_movers {op : Opcode} (moves : op ∈ movers) : op.isFoldable = true := by
  revert op
  decide

end Opcode

namespace Tape

/-- What an opcode can make of a tape. -/
inductive Handled (op : Opcode) (tape : Tape) : Tape → Prop where
  | kept : Handled op tape tape
  | changed (changes : op ∈ Opcode.changers) (change : UInt8 → UInt8) :
      Handled op tape (tape.modify change)
  | moved (moves : op ∈ Opcode.movers) (pointer : Nat) : Handled op tape { tape with pointer }

section

variable {op : Opcode} {tape last : Tape}

theorem Handled.advance (tape : Tape) (count : Nat) :
    Handled .moveRight tape (tape.advance count).1 := by
  unfold Tape.advance
  split <;> exact .moved (by decide) _

theorem Handled.retreat (tape : Tape) (count : Nat) :
    Handled .moveLeft tape (tape.retreat count).1 := by
  unfold Tape.retreat
  split <;> exact .moved (by decide) _

theorem Handled.repeated (op : Opcode) (tape : Tape) (count : Nat) :
    Handled op tape (tape.repeated op count).1 := by
  cases op with
  | moveRight => exact .advance tape count
  | moveLeft => exact .retreat tape count
  | increment | decrement => exact .changed (by decide) _
  | _ => exact .kept

theorem Handled.cellAt (handled : Handled op tape last) {index : Nat}
    (other : index ≠ tape.pointer) : last.cellAt index = tape.cellAt index := by
  cases handled with
  | kept | moved => rfl
  | changed _ change => exact cellAt_modify other change

theorem Handled.cells (handled : Handled op tape last) (silent : op ∉ Opcode.changers) :
    last.cells = tape.cells := by
  cases handled with
  | kept | moved => rfl
  | changed changes => exact absurd changes silent

theorem Handled.pointer (handled : Handled op tape last) (stays : op ∉ Opcode.movers) :
    last.pointer = tape.pointer := by
  cases handled with
  | kept | changed => rfl
  | moved moves => exact absurd moves stays

theorem Handled.apart (handled : Handled op tape last) :
    last.cells = tape.cells ∨ last.pointer = tape.pointer := by
  cases handled with
  | kept | moved => exact .inl rfl
  | changed => exact .inr rfl

end

/-- A row leads no further to the right than by the moves to the right that are executed. -/
theorem repeated_pointer_le (tape : Tape) (op : Opcode) (count : Nat) :
    (tape.repeated op count).1.pointer ≤
      tape.pointer + if op = .moveRight then tape.executed op count else 0 := by
  cases op with
  | moveRight =>
      simp only [executed, repeated, advance, if_true]
      split
      · exact Nat.le_refl _
      · simp only [Bool.false_eq_true, if_false]
        omega
  | moveLeft =>
      simp only [repeated, retreat]
      split
      · exact Nat.sub_le _ _
      · exact Nat.zero_le _
  | _ => exact Nat.le_add_right _ _

theorem usedAmong_le {cells : Array UInt8} {bound : Nat}
    (blank : ∀ index ≥ bound, cells.getD index 0 = 0) (count : Nat) :
    usedAmong cells count ≤ bound := by
  induction count with
  | zero => exact Nat.zero_le _
  | succ count ih =>
      unfold usedAmong
      split
      · exact ih
      · next used =>
          apply Nat.lt_of_not_le
          intro beyond
          exact used (blank count beyond)

theorem snapshot_length_le {tape : Tape} {bound : Nat}
    (blank : ∀ index ≥ bound, tape.cellAt index = 0) : tape.snapshot.length ≤ bound := by
  unfold snapshot
  exact Nat.le_trans (List.length_take_le _ _) (usedAmong_le blank _)

end Tape

namespace Machine

variable {σ : Type}

/-- The next instruction is one of several opcodes. -/
def IsNextOf (m : Machine σ) (ops : List Opcode) : Prop :=
  ∃ op ∈ ops, m.IsNext op

section

variable (transport : Transport σ)

theorem perform_source (m : Machine σ) {op : Opcode} (other : op ≠ .input) (count : Nat) :
    (m.perform transport op count).1.source = m.source := by
  cases op with
  | input => exact absurd rfl other
  | loopStart =>
      simp only [perform, enterLoop]
      split <;> rfl
  | loopEnd =>
      simp only [perform, repeatLoop]
      split <;> rfl
  | receive =>
      simp only [perform, receiveIn]
      split <;> rfl
  | flush =>
      simp only [perform, sendOut]
      split <;> rfl
  | _ => rfl

theorem perform_handled (m : Machine σ) (op : Opcode) (count : Nat) :
    m.tape.Handled op (m.perform transport op count).1.tape := by
  cases op with
  | moveRight => exact .advance m.tape count
  | moveLeft => exact .retreat m.tape count
  | increment | decrement => exact .changed (by decide) _
  | input =>
      simp only [perform, readIn]
      split
      · exact .changed (by decide) _
      · exact .kept
  | loopStart =>
      simp only [perform, enterLoop]
      split <;> exact .kept
  | loopEnd =>
      simp only [perform, repeatLoop]
      split <;> exact .kept
  | receive =>
      simp only [perform, receiveIn]
      split
      · exact .changed (by decide) _
      · exact .kept
  | flush =>
      simp only [perform, sendOut]
      split
      · exact .changed (by decide) _
      · exact .kept
      · exact .kept
  | _ => exact .kept

namespace Effect

variable {transport} {m : Machine σ} {result : Machine σ × Option Stop}

/-- What a step does to the tape, the next instruction does. -/
theorem handled (effect : Effect transport m result) :
    result.1.tape = m.tape ∨ ∃ op, m.IsNext op ∧ m.tape.Handled op result.1.tape := by
  cases effect with
  | ended => exact .inl rfl
  | @row op _ count same _ => exact .inr ⟨op, same 0 (Nat.zero_le _), .repeated op m.tape _⟩
  | @alone op _ next =>
      exact .inr ⟨op, next, perform_handled transport (m.facing (m.code.pc + 1)) op 1⟩

theorem sink (effect : Effect transport m result) (other : ¬ m.IsNext .output) :
    result.1.sink = m.sink := by
  cases effect with
  | ended | row => rfl
  | @alone op _ next =>
      have silent : op ≠ .output := by
        rintro rfl
        exact other next
      exact perform_sink transport (m.facing _) silent 1

theorem source (effect : Effect transport m result) (other : ¬ m.IsNext .input) :
    result.1.source = m.source := by
  cases effect with
  | ended | row => rfl
  | @alone op _ next =>
      have silent : op ≠ .input := by
        rintro rfl
        exact other next
      exact perform_source transport (m.facing _) silent 1

theorem network (effect : Effect transport m result) (other : ¬ m.IsNextOf Opcode.networked) :
    result.1.network = m.network ∧ result.1.world = m.world := by
  cases effect with
  | ended | row => exact ⟨rfl, rfl⟩
  | @alone op _ next =>
      have plain : op.needs ≠ .net := by
        intro needs
        exact other ⟨op, Opcode.mem_networked_iff.mpr needs, next⟩
      have kept := perform_untouched transport (m.facing (m.code.pc + 1)) plain 1
      exact ⟨kept.network, kept.world⟩

/-- The pointer gets no further to the right than by the moves to the right that are counted. -/
theorem pointer_le (effect : Effect transport m result) :
    m.report.count .moveRight ≤ result.1.report.count .moveRight ∧
      result.1.tape.pointer + m.report.count .moveRight ≤
        m.tape.pointer + result.1.report.count .moveRight := by
  cases effect with
  | ended => exact ⟨Nat.le_refl _, Nat.le_refl _⟩
  | @row op _ count _ _ =>
      have further := Tape.repeated_pointer_le m.tape op (count + 1)
      have counted := m.report.count_record op .moveRight (m.tape.executed op (count + 1))
      simp only [inRow, behindRow, counted]
      omega
  | @alone op plain _ =>
      have stays : op ∉ Opcode.movers := by
        intro moves
        rw [Opcode.isFoldable_of_mem_movers moves] at plain
        cases plain
      have pointer : (m.alone transport op).1.tape.pointer = m.tape.pointer :=
        (perform_handled transport (m.facing (m.code.pc + 1)) op 1).pointer stays
      rw [pointer, alone_report, Report.count_record]
      omega

end Effect

variable {m : Machine σ}

/-- What one step of a machine leaves alone. -/
structure StepLocal (m : Machine σ) : Prop where
  /-- At most the current cell changes. -/
  cellAt : ∀ index ≠ m.tape.pointer, (m.step transport).1.tape.cellAt index = m.tape.cellAt index
  cells : ¬ m.IsNextOf Opcode.changers → (m.step transport).1.tape.cells = m.tape.cells
  pointer : ¬ m.IsNextOf Opcode.movers → (m.step transport).1.tape.pointer = m.tape.pointer
  apart : (m.step transport).1.tape.cells = m.tape.cells ∨
    (m.step transport).1.tape.pointer = m.tape.pointer
  /-- Only a loop that is repeated leads back. -/
  onward : ¬ m.Repeats → m.code.pc ≤ (m.step transport).1.code.pc
  sink : ¬ m.IsNext .output → (m.step transport).1.sink = m.sink
  source : ¬ m.IsNext .input → (m.step transport).1.source = m.source
  network : ¬ m.IsNextOf Opcode.networked →
    (m.step transport).1.network = m.network ∧ (m.step transport).1.world = m.world

theorem WellFormed.stepLocal (inside : m.WellFormed) : StepLocal transport m := by
  have effect := inside.effect transport
  have onward (straight : ¬ m.Repeats) : m.code.pc ≤ (m.step transport).1.code.pc := by
    by_cases finished : (m.step transport).2 = some .finished
    · rw [inside.step_of_finished transport finished]
    · exact Nat.le_of_lt (inside.pc_lt transport finished straight)
  rcases effect.handled with same | ⟨op, next, handled⟩
  · refine ⟨?_, ?_, ?_, .inl (congrArg Tape.cells same), onward, effect.sink, effect.source,
      effect.network⟩
    · intro index _
      rw [same]
    · intro _
      rw [same]
    · intro _
      rw [same]
  · exact ⟨fun index other => handled.cellAt other,
      fun others => handled.cells fun changes => others ⟨op, changes, next⟩,
      fun others => handled.pointer fun moves => others ⟨op, moves, next⟩,
      handled.apart, onward, effect.sink, effect.source, effect.network⟩

/-! ### Several steps -/

/-- The cells that the steps of a run start from. -/
def runStations : Nat → Machine σ → List Nat
  | 0, _ => []
  | budget + 1, m =>
    m.tape.pointer ::
      match m.step transport with
      | (m, none) => runStations budget m
      | (_, some _) => []

/-- The cells that the steps of an operation start from. -/
def Operation.stations (m : Machine σ) : Operation → List Nat
  | step => runStations transport 1 m
  | run budget => runStations transport budget m
  | _ => []

/-- The cells that the steps of several operations start from. -/
def stations : List Operation → Machine σ → List Nat
  | [], _ => []
  | operation :: operations, m =>
    operation.stations transport m ++ stations operations (operation.apply transport m)

/-- A run changes only cells that one of its steps starts from. -/
theorem WellFormed.run_cellAt (inside : m.WellFormed) {budget index : Nat}
    (elsewhere : index ∉ runStations transport budget m) :
    (m.run transport budget).1.tape.cellAt index = m.tape.cellAt index := by
  induction budget generalizing m with
  | zero => rfl
  | succ budget ih =>
      obtain ⟨other, later⟩ := List.ne_and_not_mem_of_not_mem_cons elsewhere
      have once := (inside.stepLocal transport).cellAt index other
      have kept := step_wellFormed transport inside
      unfold run
      generalize m.step transport = result at once kept later ⊢
      obtain ⟨next, stop⟩ := result
      cases stop with
      | none => exact (ih kept later).trans once
      | some stop => exact once

/-- What leaves the tape to the program. -/
def Operation.leavesTape : Operation → Bool
  | onTape _ => false
  | _ => true

theorem Operation.cellAt_apply (inside : m.WellFormed) {operation : Operation}
    (leaves : operation.leavesTape = true) {index : Nat}
    (elsewhere : index ∉ operation.stations transport m) (zero : m.tape.cellAt index = 0) :
    (operation.apply transport m).tape.cellAt index = 0 := by
  cases operation with
  | step =>
      have other := (List.ne_and_not_mem_of_not_mem_cons elsewhere).1
      exact ((inside.stepLocal transport).cellAt index other).trans zero
  | run budget => exact (inside.run_cellAt transport elsewhere).trans zero
  | reset => exact Tape.cellAt_blank index
  | reload text =>
      simp only [apply, Machine.reload]
      split <;> exact zero
  | onTape operation => cases leaves
  | onCode | onNetwork | feed | drain => exact zero

/-- A cell that no step starts from stays zero. -/
theorem WellFormed.live_cellAt (inside : m.WellFormed) {operations : List Operation}
    (leave : ∀ operation ∈ operations, operation.leavesTape = true) {index : Nat}
    (elsewhere : index ∉ stations transport operations m) (zero : m.tape.cellAt index = 0) :
    (live transport operations m).tape.cellAt index = 0 := by
  induction operations generalizing m with
  | nil => exact zero
  | cons operation operations ih =>
      obtain ⟨leaves, leave⟩ := List.forall_mem_cons.mp leave
      have first := fun member => elsewhere (List.mem_append_left _ member)
      have rest := fun member => elsewhere (List.mem_append_right _ member)
      have once := operation.cellAt_apply transport inside leaves first zero
      exact ih (operation.apply_wellFormed transport inside) leave rest once

/-- The pointer and the cells in use are within the moves to the right that are counted. -/
structure Within (m : Machine σ) : Prop where
  pointer : m.tape.pointer ≤ m.report.count .moveRight
  blank : ∀ index > m.report.count .moveRight, m.tape.cellAt index = 0

theorem Within.step (within : m.Within) (inside : m.WellFormed) :
    (m.step transport).1.Within := by
  obtain ⟨more, further⟩ := (inside.effect transport).pointer_le
  have bound := within.pointer
  refine ⟨by omega, ?_⟩
  intro index beyond
  have other : index ≠ m.tape.pointer := by omega
  rw [(inside.stepLocal transport).cellAt index other]
  exact within.blank index (Nat.lt_of_le_of_lt more beyond)

theorem Within.apply (within : m.Within) (inside : m.WellFormed) {operation : Operation}
    (leaves : operation.leavesTape = true) : (operation.apply transport m).Within := by
  cases operation with
  | step => exact within.step transport inside
  | run budget =>
      have keeps {m : Machine σ} (inside : m.WellFormed) (within : m.Within) :=
        within.step transport inside
      exact inside.run_keeps transport keeps within budget
  | reset => exact ⟨Nat.zero_le _, fun index _ => Tape.cellAt_blank index⟩
  | reload text =>
      simp only [Operation.apply, Machine.reload]
      split <;> exact ⟨within.pointer, within.blank⟩
  | onTape operation => cases leaves
  | onCode | onNetwork | feed | drain => exact ⟨within.pointer, within.blank⟩

theorem Within.live (within : m.Within) (inside : m.WellFormed) {operations : List Operation}
    (leave : ∀ operation ∈ operations, operation.leavesTape = true) :
    (live transport operations m).Within :=
  inside.live_keeps transport
    (fun inside operation member within => within.apply transport inside (leave operation member))
    within

theorem Within.snapshot_le (within : m.Within) :
    m.tape.snapshot.length ≤ m.report.count .moveRight + 1 :=
  Tape.snapshot_length_le fun index beyond => within.blank index beyond

/-- How far the tape of a machine is in use, if its steps started from the given cells. -/
structure Spans (visited : List Nat) (m : Machine σ) : Prop where
  /-- A cell that no step started from is zero. -/
  untouched : ∀ index ∉ visited, m.tape.cellAt index = 0
  pointer_le : m.tape.pointer ≤ m.report.count .moveRight
  snapshot_le : m.tape.snapshot.length ≤ m.report.count .moveRight + 1

/--
At any time of a machine's life its steps are local; and if its tape was left
to its programs, they use no more of it than they moved to the right.
-/
theorem live_local (text : List UInt8) (options : Options) (world : σ) (source : Source)
    (sink : Sink) (operations : List Operation) :
    StepLocal transport (live transport operations (about text options world source sink)) ∧
      ((∀ operation ∈ operations, operation.leavesTape = true) →
        Spans (stations transport operations (about text options world source sink))
          (live transport operations (about text options world source sink))) := by
  have inside := about_wellFormed text options world source sink
  have started : (about text options world source sink).Within :=
    ⟨Nat.zero_le _, fun index _ => Tape.cellAt_blank index⟩
  refine ⟨(live_wellFormed transport inside operations).stepLocal transport, ?_⟩
  intro leave
  have within := started.live transport inside leave
  exact ⟨fun index elsewhere =>
    inside.live_cellAt transport leave elsewhere (Tape.cellAt_blank index),
    within.pointer, within.snapshot_le⟩

end

/-- A text that moves to the right, leaves the tape on the left, and fails to read. -/
def wanderingText : List UInt8 :=
  (">>+<<<+,>.".toList).map Char.toUInt8

/-- Runs on behind every failure, a reset, and another program on the same tape. -/
def wanderingOperations : List Operation :=
  [.run 9, .step, .run 9, .reset, .run 2, .reload (.ofBytes [0x3E, 0x2B]), .run 9]

theorem live_local_wandering :
    (∀ operation ∈ wanderingOperations, operation.leavesTape = true) ∧
      StepLocal Loopback.transport
        (live Loopback.transport wanderingOperations
          (about wanderingText { fold := true } {} {} {})) ∧
      Spans
        (stations Loopback.transport wanderingOperations
          (about wanderingText { fold := true } {} {} {}))
        (live Loopback.transport wanderingOperations
          (about wanderingText { fold := true } {} {} {})) := by
  have leave : ∀ operation ∈ wanderingOperations, operation.leavesTape = true := by decide
  obtain ⟨stepLocal, spans⟩ := live_local Loopback.transport wanderingText { fold := true } {} {} {}
    wanderingOperations
  exact ⟨leave, stepLocal, spans leave⟩

end Machine

end TapeNet
