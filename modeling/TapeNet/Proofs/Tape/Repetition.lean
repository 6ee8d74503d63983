import TapeNet.Opcode
import TapeNet.Tape

/-!
# Repetitions on the tape

Every operation keeps the tape well formed.  The opcodes that may be folded
act on the tape alone, and executing one of them several times at once is the
same as executing it once and then the remaining times, as long as the first
time stays on the tape; otherwise the tape stays as it was, however often the
opcode is repeated.
-/

namespace TapeNet

namespace Tape

theorem blank_wellFormed : blank.WellFormed :=
  ⟨Array.size_replicate, (by decide : 0 < length)⟩

theorem WellFormed.modify {tape : Tape} (inside : tape.WellFormed) (change : UInt8 → UInt8) :
    (tape.modify change).WellFormed :=
  ⟨Array.size_modify.trans inside.size_eq, inside.pointer_lt⟩

theorem WellFormed.advance {tape : Tape} (inside : tape.WellFormed) (count : Nat) :
    (tape.advance count).1.WellFormed := by
  unfold Tape.advance
  split
  · refine ⟨inside.size_eq, ?_⟩
    change tape.pointer + count < length
    have small := inside.pointer_lt
    omega
  · exact ⟨inside.size_eq, (by decide : length - 1 < length)⟩

theorem WellFormed.retreat {tape : Tape} (inside : tape.WellFormed) (count : Nat) :
    (tape.retreat count).1.WellFormed := by
  unfold Tape.retreat
  split
  · exact ⟨inside.size_eq, Nat.lt_of_le_of_lt (Nat.sub_le _ _) inside.pointer_lt⟩
  · exact ⟨inside.size_eq, (by decide : 0 < length)⟩

/-- Two changes of the current cell are one. -/
theorem modify_modify (tape : Tape) (first second : UInt8 → UInt8) :
    (tape.modify first).modify second = tape.modify (second ∘ first) := by
  have same : (tape.cells.modify tape.pointer first).modify tape.pointer second =
      tape.cells.modify tape.pointer (second ∘ first) := by
    apply Array.ext
    · simp only [Array.size_modify]
    · intro index _ _
      simp only [Array.getElem_modify, Function.comp_apply]
      split <;> rfl
  exact congrArg (fun cells => Tape.mk cells tape.pointer) same

/-- The first of several cells to the right can be moved over on its own. -/
theorem advance_succ {tape : Tape} (stays : (tape.advance 1).2 = true) (count : Nat) :
    tape.advance (count + 1) = (tape.advance 1).1.advance count := by
  have room : 1 ≤ length - 1 - tape.pointer := by
    unfold advance at stays
    split at stays
    · assumption
    · cases stays
  have first : tape.advance 1 = (⟨tape.cells, tape.pointer + 1⟩, true) := if_pos room
  rw [first]
  unfold advance
  by_cases fits : count + 1 ≤ length - 1 - tape.pointer
  · rw [if_pos fits, if_pos (by change count ≤ length - 1 - (tape.pointer + 1); omega)]
    simp only [Nat.add_assoc, Nat.add_comm count 1]
  · rw [if_neg fits, if_neg (by change ¬ count ≤ length - 1 - (tape.pointer + 1); omega)]

/-- On the last cell every move to the right fails and changes nothing. -/
theorem advance_of_leaves {tape : Tape} (inside : tape.WellFormed)
    (leaves : (tape.advance 1).2 = false) (count : Nat) :
    tape.advance (count + 1) = (tape, false) := by
  have full : ¬ 1 ≤ length - 1 - tape.pointer := by
    unfold advance at leaves
    split at leaves
    · cases leaves
    · assumption
  have last : tape.pointer = length - 1 := by
    have small := inside.pointer_lt
    omega
  unfold advance
  rw [if_neg (by omega), ← last]

/-- The first of several cells to the left can be moved over on its own. -/
theorem retreat_succ {tape : Tape} (stays : (tape.retreat 1).2 = true) (count : Nat) :
    tape.retreat (count + 1) = (tape.retreat 1).1.retreat count := by
  have room : 1 ≤ tape.pointer := by
    unfold retreat at stays
    split at stays
    · assumption
    · cases stays
  have first : tape.retreat 1 = (⟨tape.cells, tape.pointer - 1⟩, true) := if_pos room
  rw [first]
  unfold retreat
  by_cases fits : count + 1 ≤ tape.pointer
  · rw [if_pos fits, if_pos (by change count ≤ tape.pointer - 1; omega)]
    simp only [Nat.sub_sub, Nat.add_comm count 1]
  · rw [if_neg fits, if_neg (by change ¬ count ≤ tape.pointer - 1; omega)]

/-- On the first cell every move to the left fails and changes nothing. -/
theorem retreat_of_leaves {tape : Tape} (leaves : (tape.retreat 1).2 = false) (count : Nat) :
    tape.retreat (count + 1) = (tape, false) := by
  have first : tape.pointer = 0 := by
    unfold retreat at leaves
    split at leaves
    · cases leaves
    · omega
  unfold retreat
  rw [if_neg (by omega), ← first]

/-- What `count` repetitions of an opcode that may be folded do, and whether they stay on the tape. -/
def repeated (op : Opcode) (count : Nat) (tape : Tape) : Tape × Bool :=
  match op with
  | .moveRight => tape.advance count
  | .moveLeft => tape.retreat count
  | .increment => (tape.add (UInt8.ofNat (count % 256)), true)
  | .decrement => (tape.sub (UInt8.ofNat (count % 256)), true)
  | _ => (tape, true)

/--
How many of `count` repetitions are executed: all of them, or those up to and
including the first that leaves the tape.
-/
def executed (op : Opcode) (count : Nat) (tape : Tape) : Nat :=
  let (ended, stays) := tape.repeated op count
  if stays then
    count
  else
    (ended.pointer - tape.pointer) + (tape.pointer - ended.pointer) + 1

theorem WellFormed.repeated {tape : Tape} (inside : tape.WellFormed) (op : Opcode) (count : Nat) :
    (tape.repeated op count).1.WellFormed := by
  cases op with
  | moveRight => exact inside.advance count
  | moveLeft => exact inside.retreat count
  | increment | decrement => exact inside.modify _
  | _ => exact inside

/-- If the first repetition stays on the tape, the others start where it ends. -/
theorem repeated_succ {op : Opcode} {tape : Tape} (stays : (tape.repeated op 1).2 = true)
    (count : Nat) :
    tape.repeated op (count + 1) = (tape.repeated op 1).1.repeated op count := by
  cases op with
  | moveRight => exact advance_succ stays count
  | moveLeft => exact retreat_succ stays count
  | increment =>
      have sum (cell : UInt8) : cell + UInt8.ofNat ((count + 1) % 256) =
          cell + UInt8.ofNat (1 % 256) + UInt8.ofNat (count % 256) := by
        rw [UInt8.ofNat_mod_size (x := count + 1), UInt8.ofNat_mod_size (x := count), UInt8.ofNat_add]
        grind
      simp only [repeated, add, modify_modify]
      exact congrArg (fun change => (tape.modify change, true)) (funext sum)
  | decrement =>
      have difference (cell : UInt8) : cell - UInt8.ofNat ((count + 1) % 256) =
          cell - UInt8.ofNat (1 % 256) - UInt8.ofNat (count % 256) := by
        rw [UInt8.ofNat_mod_size (x := count + 1), UInt8.ofNat_mod_size (x := count), UInt8.ofNat_add]
        grind
      simp only [repeated, sub, modify_modify]
      exact congrArg (fun change => (tape.modify change, true)) (funext difference)
  | _ => rfl

/-- If the first repetition leaves the tape, nothing changes, however many follow. -/
theorem repeated_of_leaves {op : Opcode} {tape : Tape} (inside : tape.WellFormed)
    (leaves : (tape.repeated op 1).2 = false) (count : Nat) :
    tape.repeated op (count + 1) = (tape, false) := by
  cases op with
  | moveRight => exact advance_of_leaves inside leaves count
  | moveLeft => exact retreat_of_leaves leaves count
  | _ => cases leaves

/-- A single repetition that stays on the tape is the first of those that are executed. -/
theorem executed_succ {op : Opcode} {tape : Tape} (stays : (tape.repeated op 1).2 = true)
    (inside : tape.WellFormed) (count : Nat) :
    tape.executed op (count + 1) = (tape.repeated op 1).1.executed op count + 1 := by
  have small := inside.pointer_lt
  unfold executed
  rw [repeated_succ stays]
  cases fits : ((tape.repeated op 1).1.repeated op count).2 with
  | true => simp only [fits, if_true]
  | false =>
      simp only [fits, Bool.false_eq_true, if_false]
      cases op with
      | moveRight =>
          simp only [repeated, advance] at stays fits ⊢
          grind
      | moveLeft =>
          simp only [repeated, retreat] at stays fits ⊢
          grind
      | _ => cases fits

theorem executed_of_leaves {op : Opcode} {tape : Tape} (inside : tape.WellFormed)
    (leaves : (tape.repeated op 1).2 = false) (count : Nat) :
    tape.executed op (count + 1) = 1 := by
  unfold executed
  rw [repeated_of_leaves inside leaves]
  simp only [Bool.false_eq_true, if_false, Nat.sub_self]

theorem executed_one {tape : Tape} (inside : tape.WellFormed) (op : Opcode) :
    tape.executed op 1 = 1 := by
  cases stays : (tape.repeated op 1).2 with
  | true => simp only [executed, stays, if_true]
  | false => exact executed_of_leaves inside stays 0

/-- An opcode that may not be folded stays on the tape, however often it is repeated. -/
theorem executed_of_not_foldable {op : Opcode} (single : op.isFoldable = false) (count : Nat)
    (tape : Tape) : tape.executed op count = count := by
  cases op with
  | moveRight | moveLeft | increment | decrement => cases single
  | _ => rfl

/-- At least one repetition is executed, and at most all of them are. -/
theorem executed_bounds {tape : Tape} (inside : tape.WellFormed) (op : Opcode) (count : Nat) :
    1 ≤ tape.executed op (count + 1) ∧ tape.executed op (count + 1) ≤ count + 1 := by
  induction count generalizing tape with
  | zero =>
      rw [executed_one inside op]
      exact ⟨Nat.le_refl 1, Nat.le_refl 1⟩
  | succ count ih =>
      cases stays : (tape.repeated op 1).2 with
      | true =>
          have rest := ih (inside.repeated op 1)
          rw [executed_succ stays inside]
          omega
      | false =>
          rw [executed_of_leaves inside stays]
          omega

end Tape

end TapeNet
