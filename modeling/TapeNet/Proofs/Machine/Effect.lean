import TapeNet.Proofs.Block.Realization
import TapeNet.Proofs.Code.Jump
import TapeNet.Proofs.Machine.Folding
import TapeNet.Proofs.Machine.Life

/-!
# The effect of a step

All that a step of a well-formed machine can do, said once.  It finds the end;
or it executes a row of an opcode that may be folded, which works on the tape
alone and is over at its last instruction or at the one that leaves the tape;
or it executes another opcode once, and a bracket alone decides where it leads.
-/

namespace TapeNet

namespace Machine

variable {σ : Type}

/-- An opcode is the next instruction of a machine. -/
def IsNext (m : Machine σ) (op : Opcode) : Prop :=
  m.code.bytes[m.code.pc]? = some op.byte

theorem IsNext.unique {m : Machine σ} {first second : Opcode} (next : m.IsNext first)
    (other : m.IsNext second) : first = second :=
  Opcode.byte_injective (Option.some.inj (next.symm.trans other))

/-- What a row of an opcode that may be folded makes of a machine, in one step. -/
def inRow (m : Machine σ) (op : Opcode) (count : Nat) : Machine σ × Option Stop :=
  ({ m.behindRow op count with
      report := m.report.record op (m.tape.executed op count) },
    m.rowStop op count)

section

variable (transport : Transport σ)

/-- What an opcode makes of a machine that is executed on its own. -/
def alone (m : Machine σ) (op : Opcode) : Machine σ × Option Stop :=
  (((m.facing (m.code.pc + 1)).perform transport op 1).1.noted op,
    ((m.facing (m.code.pc + 1)).perform transport op 1).2)

/-- What a step can make of a machine, and its answer. -/
inductive Effect (m : Machine σ) : Machine σ × Option Stop → Prop where
  | ended (behind : m.code.pc = m.code.size) : Effect m (m, some .finished)
  | row {op : Opcode} (foldable : op.isFoldable = true) (count : Nat)
      (same : ∀ index ≤ count, m.code.bytes[m.code.pc + index]? = some op.byte)
      (single : m.options.fold = false → count = 0) : Effect m (m.inRow op (count + 1))
  | alone {op : Opcode} (plain : op.isFoldable = false) (next : m.IsNext op) :
      Effect m (m.alone transport op)

/-- Without folding, every opcode that may be folded is a row of its own. -/
theorem behindRow_one {m : Machine σ} (inside : m.tape.WellFormed) (op : Opcode) :
    (m.behindRow op 1, m.rowStop op 1) = m.inRow op 1 := by
  have once := Tape.executed_one inside op
  simp only [behindRow, inRow, once]
  rfl

/-- Every step of a well-formed machine has one of these effects. -/
theorem WellFormed.effect {m : Machine σ} (inside : m.WellFormed) :
    Effect transport m (m.step transport) := by
  rcases inside.step_cases transport with ⟨behind, finished⟩ | ⟨op, here, decoded, _⟩
  · rw [finished]
    exact .ended behind
  · cases foldable : op.isFoldable with
    | true =>
        cases folds : m.options.fold with
        | true =>
            obtain ⟨count, same, stepped⟩ :=
              step_row transport foldable folds inside.tape here decoded
            rw [stepped]
            exact .row foldable count same fun off => nomatch folds.symm.trans off
        | false =>
            rw [step_single transport foldable folds inside.tape here decoded,
              behindRow_one inside.tape]
            refine .row foldable 0 ?_ fun _ => rfl
            intro index first
            rw [Nat.le_zero.mp first]
            exact here
    | false =>
        have single : (m.options.fold && op.isFoldable) = false := by
          rw [foldable, Bool.and_false]
        have executed := execute_of_inside transport
          (perform_ne_outOfBounds transport (m.facing (m.code.pc + 1)) foldable 1)
        rw [← perform_report transport (m.facing (m.code.pc + 1)) op 1] at executed
        have stepped : m.step transport = m.alone transport op :=
          (step_of_single transport here decoded single).trans executed
        rw [stepped]
        exact .alone foldable here

/-- An opcode that may not be folded is executed on its own. -/
theorem WellFormed.step_of_next {m : Machine σ} (inside : m.WellFormed) {op : Opcode}
    (next : m.IsNext op) (plain : op.isFoldable = false) :
    m.step transport = m.alone transport op := by
  have effect := inside.effect transport
  generalize m.step transport = result at effect ⊢
  cases effect with
  | ended behind =>
      have within : m.code.pc < m.code.size := (Array.getElem?_eq_some_iff.mp next).1
      exact absurd behind (Nat.ne_of_lt within)
  | @row other foldable count same _ =>
      obtain rfl := next.unique (same 0 (Nat.zero_le _))
      cases plain.symm.trans foldable
  | @alone other _ here =>
      obtain rfl := next.unique here
      rfl

theorem alone_report (m : Machine σ) (op : Opcode) :
    (m.alone transport op).1.report = m.report.record op 1 :=
  congrArg (Report.record · op 1) (perform_report transport (m.facing (m.code.pc + 1)) op 1)

/-- Where an opcode that is executed on its own leads. -/
def landing (m : Machine σ) (op : Opcode) : Nat :=
  match op with
  | .loopStart =>
    if m.tape.cell = 0 then (m.popped.jumpForward Opcode.loopEnd.byte).2.pc else m.code.pc + 1
  | .loopEnd =>
    if m.tape.cell = 0 then m.code.pc + 1 else (m.popped.jumpBackward Opcode.loopStart.byte).2.pc
  | _ => m.code.pc + 1

/-- An opcode changes where the program stands, and nothing else of the code. -/
theorem alone_code (m : Machine σ) (op : Opcode) :
    (m.alone transport op).1.code = (m.facing (m.landing op)).code := by
  cases op with
  | input =>
      simp only [alone, perform, readIn]
      split <;> rfl
  | loopStart =>
      by_cases zero : m.tape.cell = 0
      · have taken : (m.facing (m.code.pc + 1)).enterLoop =
            ({ m with code := (m.popped.jumpForward Opcode.loopEnd.byte).2 }, none) :=
          if_pos zero
        simp only [alone, perform, taken, landing, if_pos zero]
        exact Code.jumpForward_kept m.popped _
      · have passed : (m.facing (m.code.pc + 1)).enterLoop = (m.facing (m.code.pc + 1), none) :=
          if_neg zero
        simp only [alone, perform, passed, landing, if_neg zero]
        rfl
  | loopEnd =>
      by_cases zero : m.tape.cell = 0
      · have passed : (m.facing (m.code.pc + 1)).repeatLoop = (m.facing (m.code.pc + 1), none) :=
          if_pos zero
        simp only [alone, perform, passed, landing, if_pos zero]
        rfl
      · have taken : (m.facing (m.code.pc + 1)).repeatLoop =
            ({ m with code := (m.popped.jumpBackward Opcode.loopStart.byte).2 }, none) :=
          if_neg zero
        simp only [alone, perform, taken, landing, if_neg zero]
        exact Code.jumpBackward_kept m.popped _
  | receive =>
      simp only [alone, perform, receiveIn]
      split <;> rfl
  | flush =>
      simp only [alone, perform, sendOut]
      split <;> rfl
  | _ => rfl

end

end Machine

end TapeNet
