import Mathlib.Logic.Function.Iterate
import TapeNet.Proofs.Tape.Cell
import TapeNet.Proofs.Tape.Guarded

/-!
# Bulk operations and single ones

A move over many cells is as many moves to the neighbouring cell, one after the
other, and fails exactly if one of them does; an addition or subtraction of
many is as many single ones.  None of this takes a number out of the range of
machine words.  A move that stays on the tape is undone by the move back.
-/

namespace TapeNet

namespace Tape

/-- The tape after one repetition of an opcode that may be folded. -/
def once (op : Opcode) (tape : Tape) : Tape :=
  (tape.repeated op 1).1

theorem repeated_zero (op : Opcode) (tape : Tape) : tape.repeated op 0 = (tape, true) := by
  cases op with
  | moveRight => simp only [repeated, advance, Nat.zero_le, if_true, Nat.add_zero]
  | moveLeft => simp only [repeated, retreat, Nat.zero_le, if_true, Nat.sub_zero]
  | increment => exact congrArg (·, true) (modify_of_kept (by simp))
  | decrement => exact congrArg (·, true) (modify_of_kept (by simp))
  | _ => rfl

/-- Several repetitions at once lead to the same tape as one after the other. -/
theorem repeated_eq_iterate {tape : Tape} (inside : tape.WellFormed) (op : Opcode) (count : Nat) :
    (tape.repeated op count).1 = (once op)^[count] tape := by
  induction count generalizing tape with
  | zero => rw [repeated_zero, Function.iterate_zero_apply]
  | succ count ih =>
      rw [Function.iterate_succ_apply]
      cases stays : (tape.repeated op 1).2 with
      | true =>
          rw [repeated_succ stays]
          exact ih (inside.repeated op 1)
      | false =>
          have stuck : once op tape = tape := congrArg Prod.fst (repeated_of_leaves inside stays 0)
          rw [repeated_of_leaves inside stays, stuck, Function.iterate_fixed stuck]

/-- Several repetitions at once leave the tape exactly if one of them does. -/
theorem repeated_leaves_iff {tape : Tape} (inside : tape.WellFormed) (op : Opcode) (count : Nat) :
    (tape.repeated op count).2 = false ↔
      ∃ earlier < count, (((once op)^[earlier] tape).repeated op 1).2 = false := by
  induction count generalizing tape with
  | zero => simp [repeated_zero]
  | succ count ih =>
      cases stays : (tape.repeated op 1).2 with
      | false =>
          rw [repeated_of_leaves inside stays]
          exact iff_of_true rfl ⟨0, Nat.succ_pos count, stays⟩
      | true =>
          rw [repeated_succ stays, ih (inside.repeated op 1)]
          constructor
          · rintro ⟨earlier, less, leaves⟩
            exact ⟨earlier + 1, Nat.succ_lt_succ less, leaves⟩
          · rintro ⟨earlier, less, leaves⟩
            cases earlier with
            | zero => rw [Function.iterate_zero_apply, stays] at leaves; cases leaves
            | succ earlier => exact ⟨earlier, Nat.lt_of_succ_lt_succ less, leaves⟩

/-- A move to the right that does not fail is undone by the move back. -/
theorem retreat_advance {tape : Tape} {count : Nat} (stays : (tape.advance count).2 = true) :
    (tape.advance count).1.retreat count = (tape, true) := by
  unfold advance at stays ⊢
  split at stays
  · next room =>
      rw [if_pos room, retreat, if_pos (Nat.le_add_left _ _), Nat.add_sub_cancel]
  · cases stays

/-- A move to the left that does not fail is undone by the move back. -/
theorem advance_retreat {tape : Tape} (inside : tape.WellFormed) {count : Nat}
    (stays : (tape.retreat count).2 = true) :
    (tape.retreat count).1.advance count = (tape, true) := by
  have small := inside.pointer_lt
  unfold retreat at stays ⊢
  split at stays
  · next room =>
      have back : count ≤ length - 1 - (tape.pointer - count) := by omega
      rw [if_pos room, advance, if_pos back, Nat.sub_add_cancel room]
  · cases stays

theorem pointer_of_advance_fails {tape : Tape} {count : Nat}
    (fails : (tape.advance count).2 = false) : (tape.advance count).1.pointer = length - 1 := by
  unfold advance at fails ⊢
  split at fails
  · cases fails
  · next far => rw [if_neg far]

theorem pointer_of_retreat_fails {tape : Tape} {count : Nat}
    (fails : (tape.retreat count).2 = false) : (tape.retreat count).1.pointer = 0 := by
  unfold retreat at fails ⊢
  split at fails
  · cases fails
  · next far => rw [if_neg far]

namespace Guarded

/-- The numbers that a machine word can hold are below this one. -/
def wordLimit : Nat := Nat.pow 2 64

/-- A sum that must fit a machine word. -/
def sum? (first second : Nat) : Option Nat :=
  if first + second < wordLimit then some (first + second) else none

/-- Moves to the right by words; there is no result where a sum or difference leaves their range. -/
def advanceByWords (tape : Tape) (count : Nat) : Option (Tape × Bool) := do
  let room ← difference? (length - 1) tape.pointer
  if count ≤ room then do
    let pointer ← sum? tape.pointer count
    some ({ tape with pointer }, true)
  else
    some ({ tape with pointer := length - 1 }, false)

theorem advanceByWords_eq {tape : Tape} (inside : tape.WellFormed) (count : Nat) :
    advanceByWords tape count = some (tape.advance count) := by
  have within : tape.pointer ≤ length - 1 := Nat.le_sub_one_of_lt inside.pointer_lt
  simp only [advanceByWords, Tape.advance, difference?_eq within, Option.bind_eq_bind,
    Option.bind_some]
  split
  · next room =>
      have fits : tape.pointer + count < wordLimit :=
        Nat.lt_of_le_of_lt (by omega : tape.pointer + count ≤ length - 1) (by decide)
      rw [sum?, if_pos fits, Option.bind_some]
  · rfl

end Guarded

/--
What `count` times `single` make of a tape, one after the other and whether or
not one of them fails; all together fail if one of them does.
-/
structure Repeats (single : Tape → Tape × Bool) (count : Nat) (tape : Tape)
    (result : Tape × Bool) : Prop where
  tape_eq : result.1 = (fun tape => (single tape).1)^[count] tape
  fails_iff : result.2 = false ↔
    ∃ earlier < count, (single ((fun tape => (single tape).1)^[earlier] tape)).2 = false

/-- What holds of bulk operations that do `count` single ones at once. -/
structure Bulk (tape : Tape) (count : Nat) : Prop where
  advances : Repeats next count tape (tape.advance count)
  retreats : Repeats previous count tape (tape.retreat count)
  lastCell : (tape.advance count).2 = false → (tape.advance count).1.pointer = length - 1
  firstCell : (tape.retreat count).2 = false → (tape.retreat count).1.pointer = 0
  adds : tape.add (UInt8.ofNat (count % 256)) = increment^[count] tape
  subtracts : tape.sub (UInt8.ofNat (count % 256)) = decrement^[count] tape
  /-- No index, sum or difference leaves its range on the way. -/
  advance_fits : Guarded.advanceByWords tape count = some (tape.advance count)
  retreat_fits : Guarded.retreat tape count = some (tape.retreat count)
  cell_fits : ∀ change, Guarded.modify tape change = some (tape.modify change)
  thereAndBack : (tape.advance count).2 = true →
    (tape.advance count).1.retreat count = (tape, true)
  backAndThere : (tape.retreat count).2 = true →
    (tape.retreat count).1.advance count = (tape, true)

/-- Bulk operations on a well-formed tape are single ones, one after the other. -/
theorem bulk_repeats {tape : Tape} (inside : tape.WellFormed) (count : Nat) : Bulk tape count where
  advances :=
    ⟨repeated_eq_iterate inside .moveRight count, repeated_leaves_iff inside .moveRight count⟩
  retreats :=
    ⟨repeated_eq_iterate inside .moveLeft count, repeated_leaves_iff inside .moveLeft count⟩
  lastCell := pointer_of_advance_fails
  firstCell := pointer_of_retreat_fails
  adds := repeated_eq_iterate inside .increment count
  subtracts := repeated_eq_iterate inside .decrement count
  advance_fits := Guarded.advanceByWords_eq inside count
  retreat_fits := Guarded.retreat_eq tape count
  cell_fits := Guarded.modify_eq inside
  thereAndBack := retreat_advance
  backAndThere := advance_retreat inside

/-- A move by the largest number of all, from a cell shortly before the last. -/
theorem bulk_repeats_beforeEdge :
    WellFormed ⟨blank.cells, 65533⟩ ∧ Bulk ⟨blank.cells, 65533⟩ (Guarded.wordLimit - 1) ∧
      advance ⟨blank.cells, 65533⟩ (Guarded.wordLimit - 1) = (⟨blank.cells, 65535⟩, false) := by
  have inside : WellFormed ⟨blank.cells, 65533⟩ := ⟨blank_wellFormed.size_eq, by decide⟩
  exact ⟨inside, bulk_repeats inside (Guarded.wordLimit - 1), rfl⟩

end Tape

end TapeNet
