import TapeNet.Opcode.Table

/-!
# Reports

A report counts the steps of a run and, for every opcode, how often it was
executed.  A folded step executes an opcode several times.
-/

namespace TapeNet

/-- The steps taken and the executions of each opcode. -/
structure Report where
  steps : Nat := 0
  counts : Opcode.Table Nat := .fill 0
  deriving DecidableEq

namespace Report

def blank : Report := {}

instance : Inhabited Report := ⟨blank⟩

def count (report : Report) (op : Opcode) : Nat :=
  report.counts.get op

def total (report : Report) : Nat :=
  (Opcode.all.map report.count).foldr (· + ·) 0

/-- Accounts for one step that executed `op` `count` times. -/
def record (report : Report) (op : Opcode) (count : Nat) : Report :=
  { steps := report.steps + 1
    counts := report.counts.put op (report.count op + count) }

def merge (first second : Report) : Report :=
  { steps := first.steps + second.steps
    counts := .zipWith (· + ·) first.counts second.counts }

instance : Add Report := ⟨merge⟩

end Report

end TapeNet
