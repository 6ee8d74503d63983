import TapeNet.Numeral

/-!
# Reasons to stop

A run ends for one of a fixed number of causes.  Their wording is decided here
and nowhere else.
-/

namespace TapeNet

/-- Why a step did not go on to the next one, or a run ended. -/
inductive Stop where
  /-- There is no further instruction. -/
  | finished
  /-- The budget of a run was used up. -/
  | budgetSpent
  /-- A move would have left the tape. -/
  | outOfBounds
  /-- The source gave no byte. -/
  | noInput
  /-- The sink did not take the byte. -/
  | noOutput
  /-- An instruction byte is no opcode. -/
  | unknownByte (byte : UInt8)
  /-- The program text could not be read; `reason` is what its source said. -/
  | unreadable (reason : String)
  /-- A network operation that repeats until it succeeds was never answered. -/
  | unanswered
  deriving DecidableEq, Repr, Inhabited

namespace Stop

/-- What is told to the user. -/
def message : Stop → String
  | finished => "the program has terminated"
  | budgetSpent => "reached the execution limit"
  | outOfBounds => "tried moving the pointer out of the memory boundary [0, 65535]"
  | noInput => "failed to read input"
  | noOutput => "failed to write output"
  | unknownByte byte => "received unknown instruction 0x" ++ Numeral.hexByte byte
  | unreadable reason => "failed to load the program: " ++ reason
  | unanswered => "no peer answered"

end Stop

end TapeNet
