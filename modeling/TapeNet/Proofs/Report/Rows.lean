import Mathlib.Data.List.Sort
import TapeNet.Report.Table

/-!
# The rows of a report's table

Every opcode that was executed has exactly one row, and the others have none.
The rows stand in a strict order, so there is only one way to list them, and
they say how often every opcode was executed.
-/

namespace TapeNet

theorem Opcode.mem_all (op : Opcode) : op ∈ all := by
  cases op <;> decide

namespace Report

namespace Row

/-- Whether a row stands before another one: it counts more, or as much for a lower byte. -/
def Before (first second : Row) : Prop :=
  second.count < first.count ∨
    first.count = second.count ∧ first.opcode.byte < second.opcode.byte

theorem precedes_iff {first second : Row} :
    first.precedes second = true ↔
      second.count < first.count ∨
        first.count = second.count ∧ first.opcode.byte ≤ second.opcode.byte := by
  unfold precedes
  split
  · next same => simp [same]
  · next different => simp [different]

theorem precedes_trans (first second third : Row) (before : first.precedes second = true)
    (after : second.precedes third = true) : first.precedes third = true := by
  rw [precedes_iff, UInt8.le_iff_toNat_le] at *
  omega

theorem precedes_total (first second : Row) :
    (first.precedes second || second.precedes first) = true := by
  rw [Bool.or_eq_true, precedes_iff, precedes_iff, UInt8.le_iff_toNat_le, UInt8.le_iff_toNat_le]
  omega

/-- Rows of different opcodes never share a place in the order. -/
theorem before_of_precedes {first second : Row} (precedes : first.precedes second = true)
    (different : first.opcode ≠ second.opcode) : first.Before second := by
  rcases precedes_iff.mp precedes with more | ⟨same, le⟩
  · exact .inl more
  · refine .inr ⟨same, UInt8.lt_of_le_of_ne le fun equal => ?_⟩
    exact different (Opcode.byte_injective equal)

end Row

section

variable {report : Report} {row : Row}

/-- The rows are those of the opcodes that were executed. -/
theorem mem_rows : row ∈ report.rows ↔ 0 < row.count ∧ row.count = report.count row.opcode := by
  rw [rows, (List.mergeSort_perm _ _).mem_iff, List.mem_filter, List.mem_map, decide_eq_true_iff,
    and_comm]
  refine and_congr_right fun _ => ⟨?_, ?_⟩
  · rintro ⟨op, _, rfl⟩
    rfl
  · intro counted
    exact ⟨row.opcode, row.opcode.mem_all, by rw [← counted]⟩

variable (report)

/-- No opcode has two rows. -/
theorem nodup_opcodes : (report.rows.map Row.opcode).Nodup := by
  have perm := (List.mergeSort_perm ((Opcode.all.map fun op => Row.mk op (report.count op)).filter
    fun row => 0 < row.count) Row.precedes).map Row.opcode
  have front := (List.filter_sublist (p := fun row : Row => decide (0 < row.count))
    (l := Opcode.all.map fun op => Row.mk op (report.count op))).map Row.opcode
  refine perm.nodup_iff.mpr (front.nodup ?_)
  rw [List.map_map]
  exact (List.map_id _).symm ▸ (by decide : Opcode.all.Nodup)

theorem pairwise_rows : report.rows.Pairwise Row.Before := by
  have sorted := List.pairwise_mergeSort Row.precedes_trans Row.precedes_total
    ((Opcode.all.map fun op => Row.mk op (report.count op)).filter fun row => 0 < row.count)
  have distinct := List.pairwise_map.mp report.nodup_opcodes
  exact (List.Pairwise.and sorted distinct).imp fun both => Row.before_of_precedes both.1 both.2

end

/-! ### The widest count -/

/-- The largest count of a report. -/
def maxCount (report : Report) : Nat :=
  (Opcode.all.map report.count).foldl max 0

/-- The number of places that a number takes. -/
def places (n : Nat) : Nat :=
  (Nat.toDigits 10 n).length

theorem places_le_places {small large : Nat} (le : small ≤ large) :
    places small ≤ places large := by
  have fits := (Nat.length_toDigits_le_iff (by decide) Nat.length_toDigits_pos).mp
    (Nat.le_refl (places large))
  exact (Nat.length_toDigits_le_iff (by decide) Nat.length_toDigits_pos).mpr
    (Nat.lt_of_le_of_lt le fits)

theorem foldl_max_eq {values : List Nat} {greatest : Nat} (member : greatest ∈ values)
    (bound : ∀ value ∈ values, value ≤ greatest) : values.foldl max 0 = greatest := by
  rw [List.foldl_max, List.max?_eq_some_iff.mpr ⟨member, bound⟩, Option.getD_some, Nat.zero_max]

section

variable (report : Report)

/-- Some opcode has the largest count, and none has a larger one. -/
theorem exists_count_eq_maxCount :
    ∃ op, report.count op = report.maxCount ∧ ∀ other, report.count other ≤ report.maxCount := by
  have filled : (Opcode.all.map report.count) ≠ [] := List.cons_ne_nil _ _
  have member := List.max_mem filled
  have bound := fun value => List.le_max_of_mem (l := Opcode.all.map report.count) (a := value)
  have greatest : report.maxCount = (Opcode.all.map report.count).max filled :=
    foldl_max_eq member bound
  rw [greatest]
  obtain ⟨op, _, counted⟩ := List.mem_map.mp member
  exact ⟨op, counted, fun other => bound _ (List.mem_map_of_mem other.mem_all)⟩

variable {report}

theorem count_le_maxCount {row : Row} (member : row ∈ report.rows) :
    row.count ≤ report.maxCount := by
  obtain ⟨_, _, bound⟩ := report.exists_count_eq_maxCount
  rw [(mem_rows.mp member).2]
  exact bound row.opcode

/-- Where there are rows, the largest count decides about the width. -/
theorem width_eq_places {row : Row} (member : row ∈ report.rows) :
    report.width = places report.maxCount := by
  obtain ⟨op, greatest, _⟩ := report.exists_count_eq_maxCount
  have positive : 0 < report.maxCount :=
    Nat.lt_of_lt_of_le (mem_rows.mp member).1 (count_le_maxCount member)
  have widest : Row.mk op report.maxCount ∈ report.rows := mem_rows.mpr ⟨positive, greatest.symm⟩
  have attained : places report.maxCount ∈ report.rows.map fun row => row.digits.length :=
    List.mem_map.mpr ⟨_, widest, rfl⟩
  refine foldl_max_eq attained fun value among => ?_
  obtain ⟨other, listed, rfl⟩ := List.mem_map.mp among
  exact places_le_places (count_le_maxCount listed)

/-- The rows say how often every opcode was executed. -/
theorem count_eq_of_rows_eq {first second : Report} (same : first.rows = second.rows)
    (op : Opcode) : first.count op = second.count op := by
  -- Whichever count is positive has a row, and the other report has it as well.
  have counted {one other : Report} (same : one.rows = other.rows) (executed : 0 < one.count op) :
      one.count op = other.count op := by
    have member : Row.mk op (one.count op) ∈ one.rows := mem_rows.mpr ⟨executed, rfl⟩
    rw [same] at member
    exact (mem_rows.mp member).2
  rcases Nat.eq_zero_or_pos (first.count op) with none | executed
  · rcases Nat.eq_zero_or_pos (second.count op) with none' | executed
    · rw [none, none']
    · exact (counted same.symm executed).symm
  · exact counted same executed

end

end Report

end TapeNet
