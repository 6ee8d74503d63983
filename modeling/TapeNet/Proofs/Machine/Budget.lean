import Mathlib.Algebra.Ring.Nat
import TapeNet.Proofs.Machine.Life
import TapeNet.Proofs.Machine.Run

/-!
# Budgets

Every step is counted but the one that finds the end.  A run therefore spends
its budget exactly if it counts as many steps, and otherwise it is over with the
step that stops it, however much of the budget is left.  Budgets add up: no
partition of a budget into parts can be told from the whole.  The counters of a
report are plain numbers here; where a program runs they are kept in 64 bits, so
that what is said of them holds modulo 2^64.
-/

namespace TapeNet

namespace Machine

variable {σ : Type} (transport : Transport σ)

/-- Runs with one budget after the other, as long as they are spent. -/
def runParts : List Nat → Machine σ → Machine σ × Stop
  | [], m => (m, .budgetSpent)
  | budget :: budgets, m =>
    match m.run transport budget with
    | (m, .budgetSpent) => runParts budgets m
    | (m, stop) => (m, stop)

variable {m : Machine σ}

theorem run_add_of_spent {budget : Nat} (more : Nat)
    (spent : (m.run transport budget).2 = .budgetSpent) :
    m.run transport (budget + more) = (m.run transport budget).1.run transport more := by
  have steps := proceeds_of_spent spent
  exact steps.run more

theorem run_add_of_stopped {budget : Nat} (more : Nat)
    (stopped : (m.run transport budget).2 ≠ .budgetSpent) :
    m.run transport (budget + more) = m.run transport budget :=
  run_of_le rfl stopped (Nat.le_add_right budget more)

theorem runParts_of_spent {budget : Nat} (budgets : List Nat)
    (spent : (m.run transport budget).2 = .budgetSpent) :
    runParts transport (budget :: budgets) m =
      runParts transport budgets (m.run transport budget).1 := by
  have result : m.run transport budget = ((m.run transport budget).1, .budgetSpent) :=
    Prod.ext rfl spent
  rw [runParts, result]

theorem runParts_of_stopped {budget : Nat} (budgets : List Nat)
    (stopped : (m.run transport budget).2 ≠ .budgetSpent) :
    runParts transport (budget :: budgets) m = m.run transport budget := by
  unfold runParts
  split
  · next result => exact absurd (congrArg Prod.snd result) stopped
  · next result => exact result.symm

/-- Budgets that are used one after the other are as good as their sum. -/
theorem runParts_eq (budgets : List Nat) (m : Machine σ) :
    runParts transport budgets m = m.run transport budgets.sum := by
  induction budgets generalizing m with
  | nil => rfl
  | cons budget budgets ih =>
      rw [List.sum_cons]
      by_cases spent : (m.run transport budget).2 = .budgetSpent
      · rw [runParts_of_spent transport budgets spent, run_add_of_spent transport _ spent, ih]
      · rw [runParts_of_stopped transport budgets spent, run_add_of_stopped transport _ spent]

theorem execute_steps (m : Machine σ) (op : Opcode) (count : Nat) :
    (m.execute transport op count).1.report.steps = m.report.steps + 1 := by
  rw [execute_report]
  rfl

/-- Every step counts that does not find the end. -/
theorem WellFormed.step_steps (inside : m.WellFormed)
    (goes : (m.step transport).2 ≠ some .finished) :
    (m.step transport).1.report.steps = m.report.steps + 1 := by
  rcases inside.step_cases transport with ⟨_, finished⟩ | ⟨op, _, _, executed⟩
  · exact absurd (congrArg Prod.snd finished) goes
  · rw [executed]
    exact execute_steps transport _ op _

namespace Proceeds

variable {transport} {count : Nat} {last : Machine σ}

theorem wellFormed (steps : Proceeds transport count m last) (inside : m.WellFormed) :
    last.WellFormed := by
  induction steps with
  | here => exact inside
  | step first _ ih =>
      have next := step_wellFormed transport inside
      rw [first] at next
      exact ih next

theorem report_steps (steps : Proceeds transport count m last) (inside : m.WellFormed) :
    last.report.steps = m.report.steps + count := by
  induction steps with
  | here => rfl
  | @step m next last count first _ ih =>
      have kept := step_wellFormed transport inside
      have goes : (m.step transport).2 ≠ some .finished := by
        rw [first]
        exact (Option.some_ne_none _).symm
      have counted := inside.step_steps transport goes
      rw [first] at kept counted
      rw [ih kept, counted, Nat.add_assoc, Nat.add_comm 1 count]

end Proceeds

/-- What the budget of a run decides. -/
structure BudgetsExact (m : Machine σ) : Prop where
  /-- A budget that is spent is the first part of a larger one. -/
  resumed : ∀ first second, (m.run transport first).2 = .budgetSpent →
    m.run transport (first + second) = (m.run transport first).1.run transport second
  /-- Beyond a budget that is not spent, a larger one makes no difference. -/
  stays : ∀ first second, (m.run transport first).2 ≠ .budgetSpent →
    m.run transport (first + second) = m.run transport first
  /-- Budgets that are used one after the other are as good as their sum. -/
  parts : ∀ budgets, runParts transport budgets m = m.run transport budgets.sum
  /-- A budget is spent exactly if as many steps go on. -/
  spent_iff : ∀ budget last,
    m.run transport budget = (last, .budgetSpent) ↔ Proceeds transport budget m last
  spent_steps : ∀ budget, (m.run transport budget).2 = .budgetSpent →
    (m.run transport budget).1.report.steps = m.report.steps + budget
  /-- A run that finishes has counted fewer steps than its budget and ends behind the code. -/
  finished : ∀ budget last, m.run transport budget = (last, .finished) →
    last.code.pc = last.code.size ∧
      ∃ count < budget, last.report.steps = m.report.steps + count
  /-- A run that stops for another reason does so with the last step that it has counted. -/
  stopped : ∀ budget last stop, m.run transport budget = (last, stop) →
    stop ≠ .budgetSpent → stop ≠ .finished →
      ∃ count, 1 ≤ count ∧ count ≤ budget ∧ last.report.steps = m.report.steps + count ∧
        ∃ before, Proceeds transport (count - 1) m before ∧
          before.step transport = (last, some stop)

theorem WellFormed.budgetsExact (inside : m.WellFormed) : BudgetsExact transport m where
  resumed := fun _ second => run_add_of_spent transport second
  stays := fun _ second => run_add_of_stopped transport second
  parts := fun budgets => runParts_eq transport budgets m
  spent_iff := fun _ _ => run_eq_budgetSpent_iff
  spent_steps := by
    intro budget spent
    have steps := proceeds_of_spent spent
    exact steps.report_steps inside
  finished := by
    intro budget last ended
    have other : Stop.finished ≠ .budgetSpent := by simp
    obtain ⟨count, before, fewer, steps, stops⟩ := (run_eq_iff other).mp ended
    have kept := steps.wellFormed inside
    have finished : (before.step transport).2 = some .finished := congrArg Prod.snd stops
    obtain rfl : last = before :=
      (congrArg Prod.fst stops).symm.trans (kept.step_of_finished transport finished)
    have behind := (kept.step_eq_finished_iff transport).mp finished
    exact ⟨behind, count, fewer, steps.report_steps inside⟩
  stopped := by
    intro budget last stop ended unspent unfinished
    obtain ⟨count, before, fewer, steps, stops⟩ := (run_eq_iff unspent).mp ended
    have goes : (before.step transport).2 ≠ some .finished := by
      rw [stops]
      exact fun same => unfinished (Option.some.inj same)
    have counted := (steps.wellFormed inside).step_steps transport goes
    rw [stops, steps.report_steps inside] at counted
    exact ⟨count + 1, Nat.le_add_left 1 count, fewer, counted, before, steps, stops⟩

/-- At any time of a machine's life, budgets are exact and add up. -/
theorem live_budgetsExact (text : List UInt8) (options : Options) (world : σ) (source : Source)
    (sink : Sink) (operations : List Operation) :
    BudgetsExact transport (live transport operations (about text options world source sink)) := by
  have inside := about_wellFormed text options world source sink
  exact (live_wellFormed transport inside operations).budgetsExact transport

end Machine

end TapeNet
