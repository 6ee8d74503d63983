import TapeNet.Proofs.Tape.Repetition

/-!
# Cells

A change of the current cell is seen there and nowhere else, and all that
matters about it is what it makes of the value that the cell has.
-/

namespace TapeNet

namespace Tape

/-- The value of a cell, wherever the pointer is. -/
def cellAt (tape : Tape) (index : Nat) : UInt8 :=
  tape.cells.getD index 0

theorem cellAt_blank (index : Nat) : blank.cellAt index = 0 := by
  simp only [cellAt, blank, Array.getD_eq_getD_getElem?, Array.getElem?_replicate]
  split <;> rfl

theorem cell_blank : blank.cell = 0 :=
  cellAt_blank 0

theorem cellAt_modify {tape : Tape} {index : Nat} (other : index ≠ tape.pointer)
    (change : UInt8 → UInt8) : (tape.modify change).cellAt index = tape.cellAt index := by
  simp only [cellAt, modify, Array.getD_eq_getD_getElem?, Array.getElem?_modify]
  rw [if_neg other.symm]

theorem cell_modify {tape : Tape} (inside : tape.WellFormed) (change : UInt8 → UInt8) :
    (tape.modify change).cell = change tape.cell := by
  have within : tape.pointer < tape.cells.size := inside.size_eq ▸ inside.pointer_lt
  simp only [cell, modify, Array.getD_eq_getD_getElem?, Array.getElem?_modify, if_true,
    Array.getElem?_eq_getElem within, Option.map_some, Option.getD_some]

theorem cell_put {tape : Tape} (inside : tape.WellFormed) (value : UInt8) :
    (tape.put value).cell = value :=
  cell_modify inside _

/-- Two changes that make the same of the current cell make the same of the tape. -/
theorem modify_congr {tape : Tape} {first second : UInt8 → UInt8}
    (same : first tape.cell = second tape.cell) : tape.modify first = tape.modify second := by
  have cells : tape.cells.modify tape.pointer first = tape.cells.modify tape.pointer second := by
    apply Array.ext
    · simp only [Array.size_modify]
    · intro index within _
      rw [Array.size_modify] at within
      simp only [Array.getElem_modify]
      split
      · next here =>
          subst here
          rw [cell, Array.getD_eq_getD_getElem?, Array.getElem?_eq_getElem within,
            Option.getD_some] at same
          exact same
      · rfl
  exact congrArg (fun cells => Tape.mk cells tape.pointer) cells

/-- A change that keeps the value of the current cell keeps the tape. -/
theorem modify_of_kept {tape : Tape} {change : UInt8 → UInt8}
    (kept : change tape.cell = tape.cell) : tape.modify change = tape := by
  rw [show tape.modify change = tape.modify id from modify_congr kept]
  have cells : tape.cells.modify tape.pointer id = tape.cells := by
    apply Array.ext
    · simp only [Array.size_modify]
    · intro index _ _
      simp only [Array.getElem_modify, id_eq, ite_self]
  exact congrArg (fun cells => Tape.mk cells tape.pointer) cells

end Tape

end TapeNet
