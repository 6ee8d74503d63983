import TapeNet.Opcode

/-!
# Code

The instructions of a program are the bytes of its source that are opcodes
under the extensions its header enables, in the order of the source.  They
never change afterwards; what moves is the program counter, the index of the
next instruction.
-/

namespace TapeNet

/-- The instructions of a program and the index of the next one. -/
structure Code where
  bytes : Array UInt8 := #[]
  extensions : Extensions := .empty
  pc : Nat := 0
  deriving DecidableEq, Repr, Inhabited

namespace Code

/--
The program written in `source`.  The header only selects the extensions; its
bytes are filtered like all others.
-/
def parse (source : List UInt8) : Code :=
  let extensions := Extensions.detect source
  { bytes := (source.filter (Opcode.isValid extensions)).toArray, extensions }

def size (code : Code) : Nat :=
  code.bytes.size

def hasExtensions (code : Code) (extensions : Extensions) : Bool :=
  code.extensions.contains extensions

/--
What every operation preserves: the program counter is inside the code or at
its end, and every byte is an opcode under the enabled extensions.
-/
structure WellFormed (code : Code) : Prop where
  pc_le_size : code.pc ≤ code.size
  isValid : ∀ byte ∈ code.bytes, Opcode.isValid code.extensions byte = true
  extensions_eq : code.extensions = .empty ∨ code.extensions = .net

def reset (code : Code) : Code :=
  { code with pc := 0 }

/-- The next instruction byte, and the code behind it; at the end nothing moves. -/
def pop (code : Code) : Option UInt8 × Code :=
  if inside : code.pc < code.bytes.size then
    (some code.bytes[code.pc], { code with pc := code.pc + 1 })
  else
    (none, code)

/--
Looks from `index` to the right for the byte that closes a bracket opened
before it, with `depth` further brackets opened in between, and gives the
index behind it.  The closing byte is looked for first, so where both bytes
are the same the first one found closes.
-/
def closeAfter? (bytes : Array UInt8) (opening closing : UInt8)
    (index depth : Nat) : Option Nat :=
  if inside : index < bytes.size then
    if bytes[index] = closing then
      match depth with
      | 0 => some (index + 1)
      | depth + 1 => closeAfter? bytes opening closing (index + 1) depth
    else if bytes[index] = opening then
      closeAfter? bytes opening closing (index + 1) (depth + 1)
    else
      closeAfter? bytes opening closing (index + 1) depth
  else
    none
termination_by bytes.size - index

/--
Looks to the left of `index` for the byte that opened a bracket closed behind
it, with `depth` further brackets closed in between, and gives the index
behind that opening byte, which is looked for first.
-/
def openBefore? (bytes : Array UInt8) (opening closing : UInt8) :
    Nat → Nat → Option Nat
  | 0, _ => none
  | index + 1, depth =>
    if bytes.getD index 0 = opening then
      match depth with
      | 0 => some (index + 1)
      | depth + 1 => openBefore? bytes opening closing index depth
    else if bytes.getD index 0 = closing then
      openBefore? bytes opening closing index (depth + 1)
    else
      openBefore? bytes opening closing index depth

/--
Jumps behind the byte `closing` that belongs to the instruction just popped,
and says whether there is one; if there is none, the jump ends behind the last
instruction.  Before the first instruction and behind the last nothing moves.
-/
def jumpForward (code : Code) (closing : UInt8) : Bool × Code :=
  if code.pc = 0 ∨ code.pc = code.bytes.size then
    (false, code)
  else
    match closeAfter? code.bytes (code.bytes.getD (code.pc - 1) 0) closing code.pc 0 with
    | some pc => (true, { code with pc })
    | none => (false, { code with pc := code.bytes.size })

/--
Jumps behind the byte `opening` that belongs to the instruction just popped,
and says whether there is one; if there is none, the jump ends before the
first instruction.  With at most one instruction popped nothing moves.
-/
def jumpBackward (code : Code) (opening : UInt8) : Bool × Code :=
  if code.pc ≤ 1 then
    (false, code)
  else
    match openBefore? code.bytes opening (code.bytes.getD (code.pc - 1) 0) (code.pc - 1) 0 with
    | some pc => (true, { code with pc })
    | none => (false, { code with pc := 0 })

/-- The first index from `index` on that does not hold `byte`. -/
def runEnd (bytes : Array UInt8) (byte : UInt8) (index : Nat) : Nat :=
  if inside : index < bytes.size then
    if bytes[index] = byte then runEnd bytes byte (index + 1) else index
  else
    index
termination_by bytes.size - index

/--
Pops all immediate repetitions of the instruction just popped and gives their
number, that instruction included; 0 if none was popped yet.
-/
def popRepeats (code : Code) : Nat × Code :=
  if code.pc = 0 then
    (0, code)
  else
    let pc := runEnd code.bytes (code.bytes.getD (code.pc - 1) 0) code.pc
    (pc - code.pc + 1, { code with pc })

/-- Moves back over `count` instructions, at most to the first. -/
def rewind (code : Code) (count : Nat) : Code :=
  { code with pc := code.pc - count }

end Code

end TapeNet
