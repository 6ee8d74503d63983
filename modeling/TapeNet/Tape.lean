/-!
# The tape

The memory of a program is a row of byte cells and a pointer to one of them.
Arithmetic on a cell wraps around; a move past an edge stops on the edge cell
and is reported.
-/

namespace TapeNet

/-- The cells of a program's memory and the index of the current one. -/
structure Tape where
  cells : Array UInt8
  pointer : Nat
  deriving DecidableEq

namespace Tape

def length : Nat := 65536

/-- All cells zero, the pointer on the first. -/
def blank : Tape := ⟨Array.replicate length 0, 0⟩

instance : Inhabited Tape := ⟨blank⟩

/-- What every operation preserves: the number of cells, and a pointer to one of them. -/
structure WellFormed (tape : Tape) : Prop where
  size_eq : tape.cells.size = length
  pointer_lt : tape.pointer < length

def cell (tape : Tape) : UInt8 :=
  tape.cells.getD tape.pointer 0

/-- Applies `change` to the current cell. -/
@[inline] def modify (tape : Tape) (change : UInt8 → UInt8) : Tape :=
  { tape with cells := tape.cells.modify tape.pointer change }

def put (tape : Tape) (value : UInt8) : Tape :=
  tape.modify fun _ => value

def add (tape : Tape) (amount : UInt8) : Tape :=
  tape.modify (· + amount)

def sub (tape : Tape) (amount : UInt8) : Tape :=
  tape.modify (· - amount)

/--
Moves the pointer `count` cells to the right and says whether the tape has so
many; otherwise the pointer ends on the last cell.
-/
def advance (tape : Tape) (count : Nat) : Tape × Bool :=
  if count ≤ length - 1 - tape.pointer then
    ({ tape with pointer := tape.pointer + count }, true)
  else
    ({ tape with pointer := length - 1 }, false)

/--
Moves the pointer `count` cells to the left and says whether the tape has so
many; otherwise the pointer ends on the first cell.
-/
def retreat (tape : Tape) (count : Nat) : Tape × Bool :=
  if count ≤ tape.pointer then
    ({ tape with pointer := tape.pointer - count }, true)
  else
    ({ tape with pointer := 0 }, false)

def increment (tape : Tape) : Tape :=
  tape.add 1

def decrement (tape : Tape) : Tape :=
  tape.sub 1

/-- Moves the pointer to the next cell. -/
def next (tape : Tape) : Tape × Bool :=
  tape.advance 1

/-- Moves the pointer to the previous cell. -/
def previous (tape : Tape) : Tape × Bool :=
  tape.retreat 1

/-- The number of cells among the first `count` up to the last one that is not zero. -/
def usedAmong (cells : Array UInt8) : Nat → Nat
  | 0 => 0
  | count + 1 => if cells.getD count 0 = 0 then usedAmong cells count else count + 1

/-- The cells up to the last one that is not zero. -/
def snapshot (tape : Tape) : List UInt8 :=
  tape.cells.toList.take (usedAmong tape.cells tape.cells.size)

end Tape

end TapeNet
