import TapeNet.Numeral
import TapeNet.Report

/-!
# The table of a report

A report is told as a heading with its totals and one line for each opcode
that was executed, the most frequent first and among equals by their bytes.
Counts are aligned to the right, to the width of the widest.
-/

namespace TapeNet

namespace Report

/-- An opcode that was executed and how often. -/
structure Row where
  opcode : Opcode
  count : Nat
  deriving DecidableEq, Repr

namespace Row

/-- Whether `first` stands before `second`, or both are in the same place. -/
def precedes (first second : Row) : Bool :=
  if first.count = second.count then
    first.opcode.byte ≤ second.opcode.byte
  else
    second.count < first.count

def digits (row : Row) : List Char :=
  Nat.toDigits 10 row.count

/-- The line of a row whose count takes `width` places. -/
def line (row : Row) (width : Nat) : String :=
  String.ofList (' ' :: ' ' :: List.replicate (width - row.digits.length) ' ' ++ row.digits) ++
    " " ++ row.opcode.mnemonic ++ " (" ++ String.ofList [row.opcode.char] ++ ")\n"

end Row

/-- The opcodes that were executed, in the order of the table. -/
def rows (report : Report) : List Row :=
  ((Opcode.all.map fun op => Row.mk op (report.count op)).filter fun row => 0 < row.count).mergeSort
    Row.precedes

/-- The number of places that the widest count takes. -/
def width (report : Report) : Nat :=
  (report.rows.map fun row => row.digits.length).foldl max 0

def heading (report : Report) : String :=
  "opcode counts (" ++ Numeral.decimal report.total ++ " total instructions in " ++
    Numeral.decimal report.steps ++ " steps):\n"

def table (report : Report) : String :=
  report.heading ++ String.join (report.rows.map fun row => row.line report.width)

end Report

end TapeNet
