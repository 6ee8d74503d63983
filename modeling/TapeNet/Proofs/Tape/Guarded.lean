import TapeNet.Proofs.Code.Guarded
import TapeNet.Proofs.Tape.Repetition

/-!
# Guarded operations on the tape

A guarded operation on the tape finds the current cell only if the pointer is
on the tape, and takes no difference that falls below zero.  On a well-formed
tape nothing is missing, and whatever is done to the tape, it stays well formed.
-/

namespace TapeNet

namespace Tape

namespace Guarded

def cell (tape : Tape) : Option UInt8 :=
  tape.cells[tape.pointer]?

/-- Applies `change` to the current cell, if there is one. -/
def modify (tape : Tape) (change : UInt8 → UInt8) : Option Tape :=
  if tape.pointer < tape.cells.size then some (tape.modify change) else none

def advance (tape : Tape) (count : Nat) : Option (Tape × Bool) := do
  let room ← difference? (length - 1) tape.pointer
  if count ≤ room then
    some ({ tape with pointer := tape.pointer + count }, true)
  else
    some ({ tape with pointer := length - 1 }, false)

def retreat (tape : Tape) (count : Nat) : Option (Tape × Bool) :=
  if count ≤ tape.pointer then do
    let pointer ← difference? tape.pointer count
    some ({ tape with pointer }, true)
  else
    some ({ tape with pointer := 0 }, false)

variable {tape : Tape}

theorem cell_eq (inside : tape.WellFormed) : cell tape = some tape.cell := by
  have within : tape.pointer < tape.cells.size := inside.size_eq ▸ inside.pointer_lt
  rw [cell, Tape.cell, Array.getD_eq_getD_getElem?, Array.getElem?_eq_getElem within,
    Option.getD_some]

theorem modify_eq (inside : tape.WellFormed) (change : UInt8 → UInt8) :
    modify tape change = some (tape.modify change) :=
  if_pos (inside.size_eq ▸ inside.pointer_lt)

theorem advance_eq (inside : tape.WellFormed) (count : Nat) :
    advance tape count = some (tape.advance count) := by
  have within : tape.pointer ≤ length - 1 := Nat.le_sub_one_of_lt inside.pointer_lt
  simp only [advance, Tape.advance, difference?_eq within, Option.bind_eq_bind, Option.bind_some]
  split <;> rfl

theorem retreat_eq (tape : Tape) (count : Nat) :
    retreat tape count = some (tape.retreat count) := by
  unfold retreat Tape.retreat
  split
  · next room => rw [difference?_eq room]; rfl
  · rfl

end Guarded

/-- No more repetitions are executed than were asked for. -/
theorem executed_le {tape : Tape} (inside : tape.WellFormed) (op : Opcode) (count : Nat) :
    tape.executed op count ≤ count := by
  cases count with
  | zero => cases op <;> simp [executed, repeated, advance, retreat]
  | succ count => exact (executed_bounds inside op count).2

/-- What can be done with a tape by hand. -/
inductive Operation where
  | add (amount : UInt8)
  | sub (amount : UInt8)
  | put (value : UInt8)
  | advance (count : Nat)
  | retreat (count : Nat)
  | reset
  deriving DecidableEq

namespace Operation

def apply : Operation → Tape → Tape
  | add amount, tape => tape.add amount
  | sub amount, tape => tape.sub amount
  | put value, tape => tape.put value
  | advance count, tape => (tape.advance count).1
  | retreat count, tape => (tape.retreat count).1
  | reset, _ => .blank

/-- The tape after a guarded operation. -/
def guarded : Operation → Tape → Option Tape
  | add amount, tape => Guarded.modify tape (· + amount)
  | sub amount, tape => Guarded.modify tape (· - amount)
  | put value, tape => Guarded.modify tape fun _ => value
  | advance count, tape => (Guarded.advance tape count).map Prod.fst
  | retreat count, tape => (Guarded.retreat tape count).map Prod.fst
  | reset, _ => some .blank

theorem apply_wellFormed (operation : Operation) {tape : Tape} (inside : tape.WellFormed) :
    (operation.apply tape).WellFormed := by
  cases operation with
  | add | sub | put => exact inside.modify _
  | advance count => exact inside.advance count
  | retreat count => exact inside.retreat count
  | reset => exact blank_wellFormed

theorem guarded_eq (operation : Operation) {tape : Tape} (inside : tape.WellFormed) :
    operation.guarded tape = some (operation.apply tape) := by
  cases operation with
  | add | sub | put => exact Guarded.modify_eq inside _
  | advance count => rw [guarded, Guarded.advance_eq inside]; rfl
  | retreat count => rw [guarded, Guarded.retreat_eq]; rfl
  | reset => rfl

end Operation

end Tape

end TapeNet
