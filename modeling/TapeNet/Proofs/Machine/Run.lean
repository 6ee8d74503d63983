import TapeNet.Proofs.Machine.Step

/-!
# Runs

A machine proceeds by so many steps if each of them goes on to the next.  A
run spends its budget exactly if the machine proceeds by as many steps, and it
stops for another reason exactly if, within the budget, a step gives that
reason after the machine has proceeded to it.
-/

namespace TapeNet

namespace Machine

variable {σ : Type} {transport : Transport σ}

/-- So many steps lead from one machine to another, and none of them stops. -/
inductive Proceeds (transport : Transport σ) : Nat → Machine σ → Machine σ → Prop where
  | here (m : Machine σ) : Proceeds transport 0 m m
  | step {m next last : Machine σ} {count : Nat} (first : m.step transport = (next, none))
      (rest : Proceeds transport count next last) : Proceeds transport (count + 1) m last

namespace Proceeds

theorem single {m next : Machine σ} (first : m.step transport = (next, none)) :
    Proceeds transport 1 m next :=
  .step first (.here next)

theorem trans {first second : Nat} {m middle last : Machine σ}
    (before : Proceeds transport first m middle) (after : Proceeds transport second middle last) :
    Proceeds transport (first + second) m last := by
  induction before with
  | here => simpa only [Nat.zero_add] using after
  | step one _ ih => simpa only [Nat.succ_add] using Proceeds.step one (ih after)

/-- Fewer steps are the beginning of more. -/
theorem of_le {fewer count : Nat} {m last : Machine σ} (steps : Proceeds transport count m last)
    (le : fewer ≤ count) : ∃ middle, Proceeds transport fewer m middle := by
  induction steps generalizing fewer with
  | here m =>
      cases Nat.le_zero.mp le
      exact ⟨m, .here m⟩
  | @step m _ _ _ first _ ih =>
      cases fewer with
      | zero => exact ⟨m, .here m⟩
      | succ fewer =>
          obtain ⟨middle, rest⟩ := ih (Nat.le_of_succ_le_succ le)
          exact ⟨middle, .step first rest⟩

theorem options {count : Nat} {m last : Machine σ} (steps : Proceeds transport count m last) :
    last.options = m.options := by
  induction steps with
  | here => rfl
  | @step m _ _ _ first _ ih =>
      have same := step_options transport m
      rw [first] at same
      exact ih.trans same

/-- A budget beyond the steps is spent by the machine that they reach. -/
theorem run {count : Nat} {m last : Machine σ} (steps : Proceeds transport count m last)
    (budget : Nat) : m.run transport (count + budget) = last.run transport budget := by
  induction steps with
  | here => rw [Nat.zero_add]
  | step first _ ih =>
      rw [Nat.succ_add, Machine.run, first]
      exact ih

/-- A step that stops ends a run, if the budget lasts until then. -/
theorem run_stops {count budget : Nat} {m last final : Machine σ} {stop : Stop}
    (steps : Proceeds transport count m last) (stops : last.step transport = (final, some stop))
    (enough : count < budget) : m.run transport budget = (final, stop) := by
  obtain ⟨extra, rfl⟩ : ∃ extra, budget = count + (extra + 1) :=
    ⟨budget - count - 1, by omega⟩
  rw [steps.run, Machine.run, stops]

end Proceeds

/-- A run spends its budget exactly if none of its steps stops. -/
theorem run_eq_budgetSpent_iff {budget : Nat} {m last : Machine σ} :
    m.run transport budget = (last, .budgetSpent) ↔ Proceeds transport budget m last := by
  constructor
  · intro spent
    induction budget generalizing m with
    | zero =>
        cases spent
        exact .here _
    | succ budget ih =>
        rw [run] at spent
        cases result : m.step transport with
        | mk next stop =>
            rw [result] at spent
            cases stop with
            | none => exact .step result (ih spent)
            | some stop =>
                cases spent
                exact absurd (congrArg Prod.snd result) (step_ne_budgetSpent transport _)
  · intro steps
    exact steps.run 0

theorem proceeds_of_spent {budget : Nat} {m : Machine σ}
    (spent : (m.run transport budget).2 = .budgetSpent) :
    Proceeds transport budget m (m.run transport budget).1 :=
  run_eq_budgetSpent_iff.mp (Prod.ext rfl spent)

/-- Whether a run spends its budget, wherever it leads. -/
theorem run_spent_iff {budget : Nat} {m : Machine σ} :
    (m.run transport budget).2 = .budgetSpent ↔ ∃ last, Proceeds transport budget m last := by
  constructor
  · intro spent
    exact ⟨_, proceeds_of_spent spent⟩
  · rintro ⟨last, steps⟩
    rw [run_eq_budgetSpent_iff.mpr steps]

/-- A run stops for another reason exactly if a step within the budget does. -/
theorem run_eq_iff {budget : Nat} {m final : Machine σ} {stop : Stop}
    (other : stop ≠ .budgetSpent) :
    m.run transport budget = (final, stop) ↔
      ∃ count last, count < budget ∧ Proceeds transport count m last ∧
        last.step transport = (final, some stop) := by
  constructor
  · intro ended
    induction budget generalizing m with
    | zero =>
        cases ended
        exact absurd rfl other
    | succ budget ih =>
        rw [run] at ended
        cases result : m.step transport with
        | mk next reason =>
            rw [result] at ended
            cases reason with
            | none =>
                obtain ⟨count, last, fewer, steps, stops⟩ := ih ended
                exact ⟨count + 1, last, by omega, .step result steps, stops⟩
            | some reason =>
                cases ended
                exact ⟨0, m, by omega, .here m, result⟩
  · rintro ⟨count, last, fewer, steps, stops⟩
    exact steps.run_stops stops fewer

/-- A run that stops for another reason takes fewer steps than its budget allows. -/
theorem Proceeds.lt_of_run {count budget : Nat} {m last final : Machine σ} {stop : Stop}
    (steps : Proceeds transport count m last) (ended : m.run transport budget = (final, stop))
    (other : stop ≠ .budgetSpent) : count < budget := by
  apply Nat.lt_of_not_le
  intro le
  obtain ⟨middle, fewer⟩ := steps.of_le le
  rw [run_eq_budgetSpent_iff.mpr fewer] at ended
  cases ended
  exact other rfl

/-- A larger budget changes nothing for a run that stops within a smaller one. -/
theorem run_of_le {budget larger : Nat} {m final : Machine σ} {stop : Stop}
    (ended : m.run transport budget = (final, stop)) (other : stop ≠ .budgetSpent)
    (le : budget ≤ larger) : m.run transport larger = (final, stop) := by
  obtain ⟨count, last, fewer, steps, stops⟩ := (run_eq_iff other).mp ended
  exact steps.run_stops stops (Nat.lt_of_lt_of_le fewer le)

end Machine

end TapeNet
