import TapeNet.Machine

/-!
# Machines as they are shown

The outlines of code, tape and machine for a developer.
-/

namespace TapeNet

def Extensions.outline (enabled : Extensions) : Outline :=
  .wrapped "Extensions" (.number enabled.bits.toNat)

/-- Bytes as they are shown, as a list of numbers. -/
def Outline.bytes (values : List UInt8) : Outline :=
  .items (values.map fun value => .number value.toNat)

def Code.outline (code : Code) : Outline :=
  .fields "Instructions"
    [("code", .bytes code.bytes.toList), ("extensions", code.extensions.outline),
      ("pc", .number code.pc)]
    false

/-- A tape as it is shown, without its unused cells. -/
def Tape.outline (tape : Tape) : Outline :=
  .fields "Memory" [("pointer", .number tape.pointer), ("cells", .bytes tape.snapshot)] false

def Report.outline (report : Report) : Outline :=
  .fields "ExecutionReport"
    [("steps", .number report.steps),
      ("opcode_counts", .table (Opcode.all.map fun op => (op.name, .number (report.count op))))]
    false

/-- A machine as it is shown; its source, its sink and its report are left out. -/
def Machine.outline {σ : Type} (m : Machine σ) : Outline :=
  .fields "Program"
    [("instructions", m.code.outline), ("memory", m.tape.outline),
      ("network", m.network.outline), ("opts", m.options.outline)]
    true

end TapeNet
