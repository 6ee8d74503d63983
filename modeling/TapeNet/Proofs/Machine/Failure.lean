import TapeNet.Proofs.Machine.Effect
import TapeNet.Proofs.Report.Record

/-!
# Failures

An instruction that fails for want of room on the tape, of input or of output
is executed and counted, and nothing is damaged: the program goes on behind the
one repetition that failed.  In a row of moves that is the one on the edge of
the tape; those before it have moved the pointer there, and those behind it are
still to come.
-/

namespace TapeNet

/-- The reasons why an instruction failed. -/
def Stop.failures : List Stop :=
  [.outOfBounds, .noInput, .noOutput]

/-- A move that leaves a tape. -/
structure Tape.Leaves (tape : Tape) (op : Opcode) (attempts : Nat) (last : Tape) : Prop where
  cells : last.cells = tape.cells
  /-- The pointer ends on the edge of the tape, and was moved there by all attempts but one. -/
  edge : (op = .moveRight ∧ last.pointer = length - 1 ∧
      attempts = last.pointer - tape.pointer + 1) ∨
    (op = .moveLeft ∧ last.pointer = 0 ∧ attempts = tape.pointer - last.pointer + 1)
  before : tape.repeated op (attempts - 1) = (last, true)
  again : last.repeated op 1 = (last, false)

namespace Tape

variable {tape : Tape} {op : Opcode} {count : Nat}

theorem leaves_right (inside : tape.WellFormed)
    (leaves : (tape.advance count).2 = false) :
    tape.Leaves .moveRight (tape.executed .moveRight count) (tape.advance count).1 := by
  have small := Nat.le_sub_one_of_lt inside.pointer_lt
  have far : ¬ count ≤ length - 1 - tape.pointer := by
    intro room
    rw [advance, if_pos room] at leaves
    cases leaves
  have ends : tape.advance count = ({ tape with pointer := length - 1 }, false) := if_neg far
  have attempts : tape.executed .moveRight count = length - 1 - tape.pointer + 1 := by
    simp only [executed, repeated, ends, Bool.false_eq_true, if_false]
    omega
  rw [attempts, ends]
  refine ⟨rfl, .inl ⟨rfl, rfl, rfl⟩, ?_, ?_⟩
  · have room : tape.pointer + (length - 1 - tape.pointer) = length - 1 := by omega
    rw [Nat.add_sub_cancel, repeated, advance, if_pos (Nat.le_refl _), room]
  · simp only [repeated, advance, Nat.sub_self]
    rfl

theorem leaves_left (leaves : (tape.retreat count).2 = false) :
    tape.Leaves .moveLeft (tape.executed .moveLeft count) (tape.retreat count).1 := by
  have far : ¬ count ≤ tape.pointer := by
    intro room
    rw [retreat, if_pos room] at leaves
    cases leaves
  have ends : tape.retreat count = ({ tape with pointer := 0 }, false) := if_neg far
  have attempts : tape.executed .moveLeft count = tape.pointer + 1 := by
    simp only [executed, repeated, ends, Bool.false_eq_true, if_false]
    omega
  rw [attempts, ends]
  refine ⟨rfl, .inr ⟨rfl, rfl, rfl⟩, ?_, rfl⟩
  rw [Nat.add_sub_cancel, repeated, retreat, if_pos (Nat.le_refl _), Nat.sub_self]

/-- Only moves leave a tape. -/
theorem WellFormed.leaves (inside : tape.WellFormed) (op : Opcode)
    (leaves : (tape.repeated op count).2 = false) :
    tape.Leaves op (tape.executed op count) (tape.repeated op count).1 := by
  cases op with
  | moveRight => exact leaves_right inside leaves
  | moveLeft => exact leaves_left leaves
  | _ => cases leaves

end Tape

namespace Machine

variable {σ : Type}

/-- So many attempts to execute an opcode were made and counted, in one step. -/
structure Attempted (m : Machine σ) (op : Opcode) (attempts : Nat) (last : Machine σ) : Prop where
  /-- Every attempt has its own instruction. -/
  row : ∀ index < attempts, m.code.bytes[m.code.pc + index]? = some op.byte
  positive : 1 ≤ attempts
  /-- The program goes on behind the last attempt, and is otherwise the same. -/
  code : last.code = { m.code with pc := m.code.pc + attempts }
  options : last.options = m.options
  network : last.network = m.network
  world : last.world = m.world
  steps : last.report.steps = m.report.steps + 1
  count : last.report.count op = m.report.count op + attempts
  others : ∀ other ≠ op, last.report.count other = m.report.count other
  total : last.report.total = m.report.total + attempts

/-- What a failure leaves behind: the last attempt failed for the given reason. -/
structure Failed (m : Machine σ) (op : Opcode) (attempts : Nat) (last : Machine σ)
    (stop : Stop) : Prop extends Attempted m op attempts last where
  cells : last.tape.cells = m.tape.cells
  /-- Without folding, and except for moves, there is one attempt and the pointer stays. -/
  single : m.options.fold = false ∨ stop ≠ .outOfBounds →
    attempts = 1 ∧ last.tape.pointer = m.tape.pointer
  leaves : stop = .outOfBounds → m.tape.Leaves op attempts last.tape
  input : stop = .noInput → op = .input
  output : stop = .noOutput → op = .output
  source : stop ≠ .noInput → last.source = m.source
  sink : stop ≠ .noOutput → last.sink = m.sink

variable {m : Machine σ}

/-- Attempts that change nothing but the tape, the source and the sink. -/
theorem attempted {op : Opcode} {attempts : Nat}
    (row : ∀ index < attempts, m.code.bytes[m.code.pc + index]? = some op.byte)
    (positive : 1 ≤ attempts) (tape : Tape) (source : Source) (sink : Sink) :
    Attempted m op attempts
      { m with
        code := { m.code with pc := m.code.pc + attempts }
        tape, source, sink
        report := m.report.record op attempts } :=
  ⟨row, positive, rfl, rfl, rfl, rfl, rfl, Report.count_record_self _ _ _,
    fun _ different => Report.count_record_of_ne _ _ different.symm, Report.total_record _ _ _⟩

/-- A row of moves that leaves the tape. -/
theorem WellFormed.row_failed (inside : m.WellFormed) {op : Opcode} {count : Nat}
    (same : ∀ index ≤ count, m.code.bytes[m.code.pc + index]? = some op.byte)
    (single : m.options.fold = false → count = 0)
    (leaves : (m.tape.repeated op (count + 1)).2 = false) :
    Failed m op (m.tape.executed op (count + 1)) (m.inRow op (count + 1)).1 .outOfBounds := by
  obtain ⟨least, most⟩ := Tape.executed_bounds inside.tape op count
  have left := inside.tape.leaves op leaves
  have row : ∀ index < m.tape.executed op (count + 1),
      m.code.bytes[m.code.pc + index]? = some op.byte :=
    fun index before => same index (by omega)
  refine { attempted row least _ m.source m.sink with
    cells := left.cells
    single := ?_
    leaves := fun _ => left
    input := fun other => by cases other
    output := fun other => by cases other
    source := fun _ => rfl
    sink := fun _ => rfl }
  rintro (off | moved)
  · -- The only attempt was made on the edge.
    obtain rfl := single off
    have stuck := Tape.repeated_of_leaves inside.tape leaves 0
    exact ⟨Tape.executed_one inside.tape op,
      congrArg (fun ended : Tape × Bool => ended.1.pointer) stuck⟩
  · exact absurd rfl moved

/-- The machine behind one attempt at an instruction that reaches only the source and the sink. -/
theorem IsNext.attempted {op : Opcode} (next : m.IsNext op) (source : Source) (sink : Sink) :
    Attempted m op 1 (({ m.facing (m.code.pc + 1) with source, sink } : Machine σ).noted op) := by
  have row : ∀ index < 1, m.code.bytes[m.code.pc + index]? = some op.byte := by
    intro index first
    obtain rfl := Nat.lt_one_iff.mp first
    exact next
  exact Machine.attempted row (Nat.le_refl 1) m.tape source sink

theorem readIn_of_stop {stop : Stop} (stops : m.readIn.2 = some stop) :
    stop = .noInput ∧ ∃ source, m.readIn.1 = { m with source } := by
  unfold readIn at stops ⊢
  dsimp only at stops ⊢
  split at stops
  · cases stops
  · cases stops
    exact ⟨rfl, _, rfl⟩

theorem writeOut_of_stop {stop : Stop} (stops : m.writeOut.2 = some stop) :
    stop = .noOutput ∧ ∃ sink, m.writeOut.1 = { m with sink } := by
  unfold writeOut at stops ⊢
  dsimp only at stops ⊢
  split at stops
  · cases stops
  · cases stops
    exact ⟨rfl, _, rfl⟩

/-- Every failure of a step leaves its machine like this. -/
theorem Effect.failed {transport : Transport σ} {result : Machine σ × Option Stop}
    (effect : Effect transport m result) (inside : m.WellFormed) {stop : Stop}
    (fails : stop ∈ Stop.failures) (stops : result.2 = some stop) :
    ∃ op attempts, Failed m op attempts result.1 stop := by
  cases effect with
  | ended =>
      cases stops
      simp [Stop.failures] at fails
  | @row op _ count same single =>
      simp only [inRow, rowStop] at stops
      split at stops
      · cases stops
      · next leaves =>
          cases stops
          exact ⟨op, _, inside.row_failed same single (Bool.of_not_eq_true leaves)⟩
  | @alone op plain next =>
      cases op with
      | input =>
          obtain ⟨rfl, source, kept⟩ := readIn_of_stop stops
          refine ⟨.input, 1, ?_⟩
          rw [Machine.alone, perform, kept]
          exact { next.attempted source m.sink with
            cells := rfl
            single := fun _ => ⟨rfl, rfl⟩
            leaves := fun other => by cases other
            input := fun _ => rfl
            output := fun other => by cases other
            source := absurd rfl
            sink := fun _ => rfl }
      | output =>
          obtain ⟨rfl, sink, kept⟩ := writeOut_of_stop stops
          refine ⟨.output, 1, ?_⟩
          rw [Machine.alone, perform, kept]
          exact { next.attempted m.source sink with
            cells := rfl
            single := fun _ => ⟨rfl, rfl⟩
            leaves := fun other => by cases other
            input := fun other => by cases other
            output := fun _ => rfl
            source := fun _ => rfl
            sink := absurd rfl }
      | loopStart =>
          simp only [Machine.alone, perform, enterLoop] at stops
          split at stops <;> cases stops
      | loopEnd =>
          simp only [Machine.alone, perform, repeatLoop] at stops
          split at stops <;> cases stops
      | receive =>
          simp only [Machine.alone, perform, receiveIn] at stops
          split at stops
          · cases stops
          · cases stops
            simp [Stop.failures] at fails
      | flush =>
          simp only [Machine.alone, perform, sendOut] at stops
          split at stops
          · cases stops
          · cases stops
          · cases stops
            simp [Stop.failures] at fails
      | setTimeout | setPort | queueSend => cases stops
      | moveRight | moveLeft | increment | decrement => cases plain

end Machine

end TapeNet
