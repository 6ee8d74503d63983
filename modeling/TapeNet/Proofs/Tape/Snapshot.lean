import Mathlib.Data.List.DropRight
import TapeNet.Proofs.Tape.Guarded

/-!
# The snapshot of a tape

The snapshot is what remains of the cells when the zeros at their end are taken
away.  It is the only row of bytes that does not end in a zero and gives the
cells back when it is filled up with zeros, so it tells tapes apart as well as
their cells do.
-/

namespace TapeNet

namespace Tape

/-- The cells up to the last one used are those from which the zeros at the end are dropped. -/
theorem take_usedAmong (cells : Array UInt8) {count : Nat} (inside : count ≤ cells.size) :
    cells.toList.take (usedAmong cells count) =
      (cells.toList.take count).rdropWhile (· = 0) := by
  induction count with
  | zero => rfl
  | succ count ih =>
      have within : count < cells.toList.length := inside
      have here : cells.getD count 0 = cells.toList[count] := by
        rw [Array.getD_eq_getD_getElem?, Array.getElem?_eq_getElem inside, Option.getD_some,
          Array.getElem_toList]
      rw [List.take_add_one, List.getElem?_eq_getElem within, Option.toList_some]
      unfold usedAmong
      rw [here]
      split
      · next zero =>
          rw [List.rdropWhile_concat_pos _ _ _ (by simpa using zero)]
          exact ih (Nat.le_of_succ_le inside)
      · next used =>
          rw [List.rdropWhile_concat_neg _ _ _ (by simpa using used), List.take_add_one,
            List.getElem?_eq_getElem within, Option.toList_some]

theorem snapshot_eq_rdropWhile (tape : Tape) :
    tape.snapshot = tape.cells.toList.rdropWhile (· = 0) := by
  rw [snapshot, take_usedAmong tape.cells (Nat.le_refl _), ← Array.length_toList,
    List.take_length]

/-- Zeros behind a row that does not end in one are all dropped. -/
theorem rdropWhile_append_zeros {bytes : List UInt8} (trimmed : bytes.getLast? ≠ some 0)
    (count : Nat) : (bytes ++ List.replicate count 0).rdropWhile (· = 0) = bytes := by
  induction count with
  | zero =>
      rw [List.replicate_zero, List.append_nil, List.rdropWhile_eq_self_iff]
      intro some zero
      exact trimmed (by simpa [List.getLast?_eq_some_getLast some] using zero)
  | succ count ih =>
      rw [List.replicate_succ', ← List.append_assoc, List.rdropWhile_concat_pos _ _ _ (by simp)]
      exact ih

/-- The tape holds `bytes`, of which the last is not zero, and only zeros behind them. -/
structure Holds (tape : Tape) (bytes : List UInt8) : Prop where
  length_le : bytes.length ≤ length
  getLast?_ne : bytes.getLast? ≠ some 0
  cells_eq : tape.cells.toList = bytes ++ List.replicate (length - bytes.length) 0

theorem Holds.eq_snapshot {tape : Tape} {bytes : List UInt8} (holds : tape.Holds bytes) :
    bytes = tape.snapshot := by
  rw [snapshot_eq_rdropWhile, holds.cells_eq, rdropWhile_append_zeros holds.getLast?_ne]

theorem getLast?_snapshot_ne (tape : Tape) : tape.snapshot.getLast? ≠ some 0 := by
  rw [snapshot_eq_rdropWhile]
  intro zero
  obtain ⟨some, last⟩ := List.mem_getLast?_eq_getLast zero
  exact List.rdropWhile_last_not _ _ some (by simp [← last])

theorem WellFormed.holds_snapshot {tape : Tape} (inside : tape.WellFormed) :
    tape.Holds tape.snapshot := by
  have parts : tape.snapshot ++ tape.cells.toList.rtakeWhile (· = 0) = tape.cells.toList := by
    rw [snapshot_eq_rdropWhile, List.rdropWhile_append_rtakeWhile]
  have sizes : tape.snapshot.length + (tape.cells.toList.rtakeWhile (· = 0)).length = length := by
    rw [← List.length_append, parts, Array.length_toList, inside.size_eq]
  have zeros : tape.cells.toList.rtakeWhile (· = 0) =
      List.replicate (length - tape.snapshot.length) 0 :=
    List.eq_replicate_iff.mpr
      ⟨by omega, fun cell member => by simpa using List.mem_rtakeWhile_imp member⟩
  exact ⟨by omega, getLast?_snapshot_ne tape, by rw [← zeros, parts]⟩

/-- A tape holds its snapshot and nothing else. -/
theorem WellFormed.holds_iff {tape : Tape} (inside : tape.WellFormed) (bytes : List UInt8) :
    tape.Holds bytes ↔ bytes = tape.snapshot := by
  constructor
  · exact Holds.eq_snapshot
  · rintro rfl
    exact inside.holds_snapshot

/-- Snapshot and pointer tell tapes apart. -/
theorem WellFormed.eq_iff_snapshot {tape other : Tape} (inside : tape.WellFormed)
    (inside' : other.WellFormed) :
    tape = other ↔ tape.snapshot = other.snapshot ∧ tape.pointer = other.pointer := by
  constructor
  · rintro rfl
    exact ⟨rfl, rfl⟩
  · rintro ⟨snapshots, pointers⟩
    have cells : tape.cells = other.cells := by
      apply Array.toList_inj.mp
      rw [inside.holds_snapshot.cells_eq, inside'.holds_snapshot.cells_eq, snapshots]
    cases tape
    cases other
    cases cells
    cases pointers
    rfl

theorem snapshot_eq_nil_iff (tape : Tape) : tape.snapshot = [] ↔ ∀ cell ∈ tape.cells, cell = 0 := by
  rw [snapshot_eq_rdropWhile, List.rdropWhile_eq_nil_iff]
  simp only [Array.mem_toList_iff, decide_eq_true_eq]

/-- A tape after several operations, blank before. -/
def after (operations : List Operation) : Tape :=
  operations.foldl (fun tape operation => operation.apply tape) blank

theorem after_wellFormed (operations : List Operation) : (after operations).WellFormed := by
  suffices kept : ∀ tape : Tape, tape.WellFormed →
      (operations.foldl (fun tape operation => operation.apply tape) tape).WellFormed from
    kept blank blank_wellFormed
  induction operations with
  | nil => exact fun tape inside => inside
  | cons operation operations ih =>
      exact fun tape inside => ih (operation.apply tape) (operation.apply_wellFormed inside)

/--
Whatever is done to two tapes, the snapshot of the one is the only row of bytes
that it holds, the tapes are equal exactly if their snapshots and pointers are,
and the snapshot is empty exactly if every cell is zero.
-/
theorem snapshot_canonical (operations others : List Operation) :
    (∀ bytes, (after operations).Holds bytes ↔ bytes = (after operations).snapshot) ∧
      (after operations = after others ↔
        (after operations).snapshot = (after others).snapshot ∧
          (after operations).pointer = (after others).pointer) ∧
      ((after operations).snapshot = [] ↔ ∀ cell ∈ (after operations).cells, cell = 0) := by
  have inside := after_wellFormed operations
  exact ⟨inside.holds_iff, inside.eq_iff_snapshot (after_wellFormed others),
    snapshot_eq_nil_iff _⟩

end Tape

end TapeNet
