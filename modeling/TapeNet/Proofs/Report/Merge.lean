import Mathlib.Algebra.Ring.Nat
import TapeNet.Proofs.Report.Record

/-!
# Merging reports

Reports are added step by step and count by count.  The blank report adds
nothing, and it makes no difference whether a step is recorded before or after
a report is added in front.
-/

namespace TapeNet

namespace Opcode

/-- Every place in a table belongs to an opcode. -/
theorem exists_index_eq (place : Fin 13) : ∃ op ∈ all, op.index = place := by
  revert place
  decide

/-- Two tables with the same values are the same. -/
theorem Table.ext_get {α : Type} {first second : Table α}
    (same : ∀ op, first.get op = second.get op) : first = second := by
  obtain ⟨left⟩ := first
  obtain ⟨right⟩ := second
  congr 1
  apply Vector.ext
  intro index inside
  obtain ⟨op, _, place⟩ := exists_index_eq ⟨index, inside⟩
  have value := same op
  simp only [get, place] at value
  exact value

end Opcode

namespace Report

theorem ext_count {first second : Report} (steps : first.steps = second.steps)
    (counts : ∀ op, first.count op = second.count op) : first = second := by
  obtain ⟨_, table⟩ := first
  obtain ⟨_, table'⟩ := second
  cases steps
  cases (Opcode.Table.ext_get counts : table = table')
  rfl

@[simp] theorem count_add (first second : Report) (op : Opcode) :
    (first + second).count op = first.count op + second.count op :=
  Opcode.Table.get_zipWith (· + ·) first.counts second.counts op

/-- The total is the sum of the counts of all opcodes. -/
theorem total_eq_sum (report : Report) : report.total = (Opcode.all.map report.count).sum :=
  rfl

/-- The blank report adds nothing. -/
theorem add_blank (report : Report) : report + blank = report := by
  refine ext_count rfl fun op => ?_
  rw [count_add]
  exact congrArg (report.count op + ·) (Opcode.Table.get_fill 0 op)

/-- A step is recorded in a sum as it is in its second part. -/
theorem add_record (first second : Report) (op : Opcode) (count : Nat) :
    first + second.record op count = (first + second).record op count := by
  refine ext_count rfl fun other => ?_
  rw [count_add, count_record, count_record, count_add, Nat.add_assoc]

end Report

end TapeNet
