import TapeNet.Machine
import TapeNet.Proofs.Block.Nesting

/-!
# Evaluating a block

The meaning of a block, without positions and without jumps.  A leaf executes
its opcode once, at cost 1.  A loop is entered at cost 1 and left alone if the
cell is zero; otherwise its body is evaluated, and after it the cell is tested
at cost 1, until the cell is zero.  The first leaf that fails aborts the
evaluation.
-/

namespace TapeNet

namespace Machine

variable {σ : Type}

/-- The machine that has accounted for one execution of an opcode. -/
def noted (m : Machine σ) (op : Opcode) : Machine σ :=
  { m with report := m.report.record op 1 }

end Machine

/-- How an evaluation ends: the machine it leaves, what aborted it, if anything did, and its cost. -/
structure Ending (σ : Type) where
  machine : Machine σ
  stop : Option Stop
  cost : Nat

namespace Ending

variable {σ : Type}

/-- An ending that is reached within a budget: one that aborts may use it up, any other may not. -/
def Within (ending : Ending σ) (budget : Nat) : Prop :=
  match ending.stop with
  | none => ending.cost < budget
  | some _ => ending.cost ≤ budget

/-- What a run says when it has reached an ending. -/
def reason (ending : Ending σ) : Stop :=
  ending.stop.getD .finished

end Ending

namespace Evaluation

variable {σ : Type}

/-- One part behind another; the second is not reached if the first one aborts. -/
inductive Sequence (First Second : Machine σ → Ending σ → Prop) : Machine σ → Ending σ → Prop where
  | aborted {m last : Machine σ} {stop : Stop} {cost : Nat}
      (first : First m ⟨last, some stop, cost⟩) :
      Sequence First Second m ⟨last, some stop, cost⟩
  | both {m middle last : Machine σ} {stop : Option Stop} {cost more : Nat}
      (first : First m ⟨middle, none, cost⟩) (second : Second middle ⟨last, stop, more⟩) :
      Sequence First Second m ⟨last, stop, cost + more⟩

/-- The rounds of a loop: its body, and a test that ends the loop if the cell is zero. -/
inductive Rounds (Body : Machine σ → Ending σ → Prop) : Machine σ → Ending σ → Prop where
  | aborted {m last : Machine σ} {stop : Stop} {cost : Nat}
      (body : Body m ⟨last, some stop, cost⟩) :
      Rounds Body m ⟨last, some stop, cost⟩
  | last {m middle : Machine σ} {cost : Nat}
      (body : Body m ⟨middle, none, cost⟩) (zero : middle.tape.cell = 0) :
      Rounds Body m ⟨middle.noted .loopEnd, none, cost + 1⟩
  | again {m middle last : Machine σ} {stop : Option Stop} {cost more : Nat}
      (body : Body m ⟨middle, none, cost⟩) (other : middle.tape.cell ≠ 0)
      (rounds : Rounds Body (middle.noted .loopEnd) ⟨last, stop, more⟩) :
      Rounds Body m ⟨last, stop, cost + 1 + more⟩

/-- A loop: nothing but the entry if the cell is zero, and otherwise its rounds. -/
inductive Loop (Body : Machine σ → Ending σ → Prop) : Machine σ → Ending σ → Prop where
  | skipped {m : Machine σ} (zero : m.tape.cell = 0) :
      Loop Body m ⟨m.noted .loopStart, none, 1⟩
  | entered {m last : Machine σ} {stop : Option Stop} {cost : Nat} (other : m.tape.cell ≠ 0)
      (rounds : Rounds Body (m.noted .loopStart) ⟨last, stop, cost⟩) :
      Loop Body m ⟨last, stop, 1 + cost⟩

/-- A loop has no ending if its body always leads from one cell that is not zero to another. -/
theorem Loop.not_of_kept {Body : Machine σ → Ending σ → Prop}
    (kept : ∀ m ending, m.tape.cell ≠ 0 → Body m ending →
      ending.stop = none ∧ ending.machine.tape.cell ≠ 0)
    {m : Machine σ} {ending : Ending σ} (other : m.tape.cell ≠ 0) : ¬ Loop Body m ending := by
  have never {m : Machine σ} {ending : Ending σ} (other : m.tape.cell ≠ 0) :
      ¬ Rounds Body m ending := by
    intro rounds
    induction rounds with
    | aborted body => cases (kept _ _ other body).1
    | last body zero => exact (kept _ _ other body).2 zero
    | again body left _ ih => exact ih left
  intro loops
  cases loops with
  | skipped zero => exact other zero
  | entered _ rounds => exact never (m := m.noted .loopStart) other rounds

/-- A leaf: its opcode is executed once and accounted for, whether it fails or not. -/
def Leaf (transport : Transport σ) (op : Opcode) (m : Machine σ) (ending : Ending σ) : Prop :=
  ending = ⟨(m.perform transport op 1).1.noted op, (m.perform transport op 1).2, 1⟩

end Evaluation

open Evaluation in
/-- The endings of a block, started with a machine. -/
def Block.Evaluates {σ : Type} (transport : Transport σ) : Block → Machine σ → Ending σ → Prop
  | .done => fun m ending => ending = ⟨m, none, 0⟩
  | .leaf op _ rest => Sequence (Leaf transport op) (rest.Evaluates transport)
  | .loop body rest => Sequence (Loop (body.Evaluates transport)) (rest.Evaluates transport)

/-- Behind a leaf that does not fail comes the rest. -/
theorem Block.evaluates_leaf_iff {σ : Type} {transport : Transport σ} {op : Opcode}
    {straight : op.isBracket = false} {rest : Block} {m last : Machine σ} {stop : Option Stop}
    {cost : Nat} (goes : (m.perform transport op 1).2 = none) :
    (Block.leaf op straight rest).Evaluates transport m ⟨last, stop, cost⟩ ↔
      ∃ more, cost = 1 + more ∧
        rest.Evaluates transport ((m.perform transport op 1).1.noted op) ⟨last, stop, more⟩ := by
  have alone (ending : Ending σ) : Evaluation.Leaf transport op m ending ↔
      ending = ⟨(m.perform transport op 1).1.noted op, none, 1⟩ := by
    rw [Evaluation.Leaf, goes]
  constructor
  · intro evaluates
    cases evaluates with
    | aborted first => cases (alone _).mp first
    | both first second =>
        cases (alone _).mp first
        exact ⟨_, rfl, second⟩
  · rintro ⟨more, rfl, second⟩
    exact .both ((alone _).mpr rfl) second

end TapeNet
