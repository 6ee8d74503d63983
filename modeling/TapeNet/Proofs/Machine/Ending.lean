import TapeNet.Proofs.Machine.Folding

/-!
# Runs to the end

A machine ends if a run with some budget stops it for another reason than the
budget.  It then ends in one way only, with one step that stops after steps that
go on.  A machine that folds ends exactly if one that does not fold and
otherwise agrees with it does, for the same reason and alike in all but the
number of steps.
-/

namespace TapeNet

namespace Machine

variable {σ : Type} (transport : Transport σ)

/-- With a budget that is large enough, a run leads to a machine and stops there. -/
def Ends (m last : Machine σ) (stop : Stop) : Prop :=
  stop ≠ .budgetSpent ∧ ∃ budget, m.run transport budget = (last, stop)

variable {transport} {m last : Machine σ} {stop : Stop}

/-- A machine ends with the step that stops it. -/
theorem ends_iff : Ends transport m last stop ↔
    ∃ count before, Proceeds transport count m before ∧
      before.step transport = (last, some stop) := by
  constructor
  · rintro ⟨other, budget, ended⟩
    obtain ⟨count, before, _, steps, stops⟩ := (run_eq_iff other).mp ended
    exact ⟨count, before, steps, stops⟩
  · rintro ⟨count, before, steps, stops⟩
    refine ⟨?_, count + 1, steps.run_stops stops (Nat.lt_succ_self count)⟩
    rintro rfl
    exact step_ne_budgetSpent transport before (congrArg Prod.snd stops)

namespace Ends

/-- A machine ends in one way only. -/
theorem unique {other : Machine σ} {reason : Stop} (ends : Ends transport m last stop)
    (ends' : Ends transport m other reason) : last = other ∧ stop = reason := by
  obtain ⟨unspent, budget, ended⟩ := ends
  obtain ⟨unspent', budget', ended'⟩ := ends'
  have same : (last, stop) = (other, reason) := by
    rw [← run_of_le ended unspent (Nat.le_max_left budget budget'),
      run_of_le ended' unspent' (Nat.le_max_right budget budget')]
  exact Prod.mk.inj same

theorem options (ends : Ends transport m last stop) : last.options = m.options := by
  obtain ⟨count, before, steps, stops⟩ := ends_iff.mp ends
  have kept := step_options transport before
  rw [stops, steps.options] at kept
  exact kept

end Ends

theorem Proceeds.inside {count : Nat} (steps : Proceeds transport count m last)
    (inside : m.tape.WellFormed) : last.tape.WellFormed := by
  induction steps with
  | here => exact inside
  | step first _ ih =>
      have next := step_inside transport inside
      rw [first] at next
      exact ih next

theorem Ends.inside (ends : Ends transport m last stop) (inside : m.tape.WellFormed) :
    last.tape.WellFormed := by
  obtain ⟨count, before, steps, stops⟩ := ends_iff.mp ends
  have kept := step_inside transport (steps.inside inside)
  rw [stops] at kept
  exact kept

/-- A machine that folds, beside one that does not and agrees with it in all else. -/
structure Unfolds (folded plain : Machine σ) : Prop where
  alike : Alike folded plain
  on : folded.options.fold = true
  off : plain.options.fold = false
  inside : folded.tape.WellFormed

namespace Unfolds

variable {folded plain : Machine σ}

/-- Where a folding machine ends, one that does not fold ends alike. -/
theorem ends_plain (pair : Unfolds folded plain) (ends : Ends transport folded last stop) :
    ∃ result, Ends transport plain result stop ∧ Unfolds last result := by
  obtain ⟨alike, on, off, inside⟩ := pair
  obtain ⟨count, before, steps, stops⟩ := ends_iff.mp ends
  obtain ⟨longer, middle, _, proceeds, agree⟩ :=
    alike.run_of_spent transport on off inside steps
  have on' : before.options.fold = true := by rw [steps.options, on]
  have off' : middle.options.fold = false := by rw [proceeds.options, off]
  obtain ⟨final, rest, same, result⟩ := agree.step transport on' off' (steps.inside inside)
  rw [stops] at rest same result
  have ends' : Ends transport plain (final.step transport).1 stop :=
    ends_iff.mpr ⟨_, final, proceeds.trans rest, Prod.ext rfl same⟩
  exact ⟨_, ends', result, ends.options ▸ on, ends'.options ▸ off, ends.inside inside⟩

/-- Where a machine that does not fold ends, a folding one ends alike. -/
theorem ends_folded (pair : Unfolds folded plain) (ends : Ends transport plain last stop) :
    ∃ result, Ends transport folded result stop ∧ Unfolds result last := by
  obtain ⟨alike, on, off, inside⟩ := pair
  have off' : last.options.fold = false := ends.options ▸ off
  obtain ⟨unspent, budget, ended⟩ := ends
  obtain ⟨result, matched, agree⟩ :=
    alike.run_of_stopped transport on off inside unspent ended
  have ends' : Ends transport folded result stop := ⟨unspent, budget, matched⟩
  exact ⟨result, ends', agree, ends'.options ▸ on, off', ends'.inside inside⟩

end Unfolds

end Machine

end TapeNet
