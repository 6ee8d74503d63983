import TapeNet.Report

/-!
# Recording

A record raises the count of one opcode, and the total by as much.
-/

namespace TapeNet

theorem Opcode.Table.put_put {α : Type} (table : Opcode.Table α) (op : Opcode) (first second : α) :
    (table.put op first).put op second = table.put op second := by
  simp only [Opcode.Table.put, Vector.set_set]

namespace Report

theorem count_record_self (report : Report) (op : Opcode) (count : Nat) :
    (report.record op count).count op = report.count op + count :=
  Opcode.Table.get_put_self _ _ _

theorem count_record_of_ne (report : Report) {op other : Opcode} (count : Nat)
    (different : op ≠ other) : (report.record op count).count other = report.count other :=
  Opcode.Table.get_put_of_ne _ _ different

theorem count_record (report : Report) (op other : Opcode) (count : Nat) :
    (report.record op count).count other = report.count other + if op = other then count else 0 := by
  split
  · next same => rw [← same, count_record_self]
  · next different => rw [count_record_of_ne report count different, Nat.add_zero]

/-- Raising one of the counts in a list without repetitions raises their sum by as much. -/
theorem sum_record {ops : List Opcode} (distinct : ops.Nodup) (report : Report) {op : Opcode}
    (member : op ∈ ops) (count : Nat) :
    (ops.map (report.record op count).count).foldr (· + ·) 0 =
      (ops.map report.count).foldr (· + ·) 0 + count := by
  induction ops with
  | nil => cases member
  | cons first rest ih =>
      obtain ⟨fresh, distinct⟩ := List.nodup_cons.mp distinct
      rw [List.map_cons, List.map_cons, List.foldr_cons, List.foldr_cons]
      by_cases same : op = first
      · have others : rest.map (report.record op count).count = rest.map report.count := by
          apply List.map_congr_left
          intro other later
          apply count_record_of_ne
          intro equal
          exact fresh (same ▸ equal ▸ later)
        rw [others, ← same, count_record_self]
        omega
      · have later : op ∈ rest := (List.mem_cons.mp member).resolve_left same
        rw [ih distinct later, count_record_of_ne report count same]
        omega

/-- A record raises the total by what it records. -/
theorem total_record (report : Report) (op : Opcode) (count : Nat) :
    (report.record op count).total = report.total + count :=
  sum_record (by decide) report (by cases op <;> decide) count

/-- The report after `count` steps that each execute `op` once. -/
def recordEach (report : Report) (op : Opcode) (count : Nat) : Report :=
  { steps := report.steps + count
    counts := report.counts.put op (report.count op + count) }

theorem recordEach_recordEach (report : Report) (op : Opcode) (first second : Nat) :
    (report.recordEach op first).recordEach op second = report.recordEach op (first + second) := by
  simp only [recordEach, count, Opcode.Table.put_put, Opcode.Table.get_put_self, Nat.add_assoc]

end Report

end TapeNet
