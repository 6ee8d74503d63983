import TapeNet.Proofs.Block.Nesting
import TapeNet.Proofs.Code.Pop

/-!
# Looking for brackets over a block

A search for the bracket that closes a loop passes over every block that it
meets and is as far from its goal behind it as before it; so is a search to the
left for the bracket that opens a loop.  The bracket that is found for a loop
is therefore the one of the same loop.
-/

namespace TapeNet

/-- A segment of code stands at an index. -/
def Stands (bytes : Array UInt8) (index : Nat) (segment : List UInt8) : Prop :=
  segment <+: bytes.toList.drop index

namespace Stands

variable {bytes : Array UInt8} {index : Nat}

theorem head {byte : UInt8} {rest : List UInt8} (stands : Stands bytes index (byte :: rest)) :
    bytes[index]? = some byte := by
  obtain ⟨back, split⟩ := stands
  have first := congrArg (fun segment => segment[0]?) split
  simp only [List.cons_append, List.getElem?_cons_zero, List.getElem?_drop, Nat.add_zero,
    Array.getElem?_toList] at first
  exact first.symm

theorem right {first second : List UInt8} (stands : Stands bytes index (first ++ second)) :
    Stands bytes (index + first.length) second := by
  obtain ⟨back, split⟩ := stands
  refine ⟨back, ?_⟩
  rw [← List.drop_drop, ← split, List.append_assoc, List.drop_left]

theorem left {first second : List UInt8} (stands : Stands bytes index (first ++ second)) :
    Stands bytes index first :=
  (List.prefix_append first second).trans stands

theorem tail {byte : UInt8} {rest : List UInt8} (stands : Stands bytes index (byte :: rest)) :
    Stands bytes (index + 1) rest := by
  have split : Stands bytes index ([byte] ++ rest) := stands
  exact split.right

end Stands

namespace Code

section Closing

variable {bytes : Array UInt8} {opening closing byte : UInt8} {index : Nat}

theorem closeAfter?_closing (here : bytes[index]? = some closing) (depth : Nat) :
    closeAfter? bytes opening closing index (depth + 1) =
      closeAfter? bytes opening closing (index + 1) depth := by
  obtain ⟨inside, same⟩ := Array.getElem?_eq_some_iff.mp here
  rw [closeAfter?.eq_def, dif_pos inside, if_pos same]

theorem closeAfter?_found (here : bytes[index]? = some closing) :
    closeAfter? bytes opening closing index 0 = some (index + 1) := by
  obtain ⟨inside, same⟩ := Array.getElem?_eq_some_iff.mp here
  rw [closeAfter?.eq_def, dif_pos inside, if_pos same]

theorem closeAfter?_opening (here : bytes[index]? = some opening) (differ : opening ≠ closing)
    (depth : Nat) :
    closeAfter? bytes opening closing index depth =
      closeAfter? bytes opening closing (index + 1) (depth + 1) := by
  obtain ⟨inside, same⟩ := Array.getElem?_eq_some_iff.mp here
  have other : bytes[index] ≠ closing := same ▸ differ
  rw [closeAfter?.eq_def bytes opening closing index depth, dif_pos inside, if_neg other, if_pos same]

theorem closeAfter?_other (here : bytes[index]? = some byte) (not_opening : byte ≠ opening)
    (not_closing : byte ≠ closing) (depth : Nat) :
    closeAfter? bytes opening closing index depth =
      closeAfter? bytes opening closing (index + 1) depth := by
  obtain ⟨inside, same⟩ := Array.getElem?_eq_some_iff.mp here
  have other : bytes[index] ≠ closing := same ▸ not_closing
  have different : bytes[index] ≠ opening := same ▸ not_opening
  rw [closeAfter?.eq_def bytes opening closing index depth, dif_pos inside, if_neg other, if_neg different]

theorem openBefore?_opening (here : bytes[index]? = some opening) (depth : Nat) :
    openBefore? bytes opening closing (index + 1) (depth + 1) =
      openBefore? bytes opening closing index depth := by
  rw [openBefore?, if_pos (getD_eq here)]

theorem openBefore?_found (here : bytes[index]? = some opening) :
    openBefore? bytes opening closing (index + 1) 0 = some (index + 1) := by
  rw [openBefore?, if_pos (getD_eq here)]

theorem openBefore?_closing (here : bytes[index]? = some closing) (differ : closing ≠ opening)
    (depth : Nat) :
    openBefore? bytes opening closing (index + 1) depth =
      openBefore? bytes opening closing index (depth + 1) := by
  have same := getD_eq here
  have other : bytes.getD index 0 ≠ opening := same ▸ differ
  rw [openBefore?.eq_def bytes opening closing (index + 1) depth]
  exact (if_neg other).trans (if_pos same)

theorem openBefore?_other (here : bytes[index]? = some byte) (not_opening : byte ≠ opening)
    (not_closing : byte ≠ closing) (depth : Nat) :
    openBefore? bytes opening closing (index + 1) depth =
      openBefore? bytes opening closing index depth := by
  have same := getD_eq here
  have other : bytes.getD index 0 ≠ closing := same ▸ not_closing
  have different : bytes.getD index 0 ≠ opening := same ▸ not_opening
  rw [openBefore?.eq_def bytes opening closing (index + 1) depth]
  exact (if_neg different).trans (if_neg other)

end Closing

end Code

namespace Block

/-- The number of instructions of a block. -/
def size (block : Block) : Nat :=
  block.bytes.length

theorem size_leaf {op : Opcode} (straight : op.isBracket = false) (rest : Block) :
    (leaf op straight rest).size = 1 + rest.size := by
  simp only [size, bytes, List.length_cons, Nat.add_comm]

theorem size_loop (body rest : Block) :
    (loop body rest).size = 1 + body.size + 1 + rest.size := by
  simp only [size, bytes, List.length_cons, List.length_append]
  omega

variable {bytes : Array UInt8}

/-- The search to the right passes over a block. -/
theorem closeAfter?_block {block : Block} {index : Nat} (stands : Stands bytes index block.bytes)
    (depth : Nat) :
    Code.closeAfter? bytes Opcode.loopStart.byte Opcode.loopEnd.byte index depth =
      Code.closeAfter? bytes Opcode.loopStart.byte Opcode.loopEnd.byte (index + block.size) depth := by
  induction block generalizing index depth with
  | done => rfl
  | leaf op straight rest ih =>
      have starts := Opcode.byte_ne_of_isBracket straight (rfl : Opcode.loopStart.isBracket = true)
      have ends := Opcode.byte_ne_of_isBracket straight (rfl : Opcode.loopEnd.isBracket = true)
      rw [Code.closeAfter?_other stands.head starts ends, ih stands.tail, size_leaf, Nat.add_assoc]
  | loop body rest body_ih rest_ih =>
      have behind := stands.tail.right
      rw [Code.closeAfter?_opening stands.head loopStart_ne_loopEnd, body_ih stands.tail.left,
        size, Code.closeAfter?_closing behind.head, rest_ih behind.tail, size_loop]
      simp only [size, Nat.add_assoc]

/-- The search to the left passes over a block. -/
theorem openBefore?_block {block : Block} {index : Nat} (stands : Stands bytes index block.bytes)
    (depth : Nat) :
    Code.openBefore? bytes Opcode.loopStart.byte Opcode.loopEnd.byte (index + block.size) depth =
      Code.openBefore? bytes Opcode.loopStart.byte Opcode.loopEnd.byte index depth := by
  induction block generalizing index depth with
  | done => rfl
  | leaf op straight rest ih =>
      have starts := Opcode.byte_ne_of_isBracket straight (rfl : Opcode.loopStart.isBracket = true)
      have ends := Opcode.byte_ne_of_isBracket straight (rfl : Opcode.loopEnd.isBracket = true)
      rw [size_leaf, ← Nat.add_assoc, ih stands.tail,
        Code.openBefore?_other stands.head starts ends]
  | loop body rest body_ih rest_ih =>
      have behind := stands.tail.right
      have places : index + (loop body rest).size = index + 1 + body.bytes.length + 1 + rest.size := by
        rw [size_loop, size]
        omega
      rw [places, rest_ih behind.tail,
        Code.openBefore?_closing behind.head loopStart_ne_loopEnd.symm]
      have inner := body_ih stands.tail.left (depth + 1)
      rw [size] at inner
      rw [inner, Code.openBefore?_opening stands.head]

end Block

namespace Code

open Opcode (loopStart loopEnd)

variable {code : Code} {body rest : Block} {index : Nat}

/-- Behind the beginning of a loop, the jump to the right ends behind that loop. -/
theorem jumpForward_loop (stands : Stands code.bytes index (Block.loop body rest).bytes) :
    ({ code with pc := index + 1 } : Code).jumpForward loopEnd.byte =
      (true, { code with pc := index + body.size + 2 }) := by
  have first := getD_eq stands.head
  have behind := stands.tail.right
  obtain ⟨inside, _⟩ := Array.getElem?_eq_some_iff.mp behind.head
  have inner : ¬ (index + 1 = 0 ∨ index + 1 = code.bytes.size) := by omega
  have found : closeAfter? code.bytes loopStart.byte loopEnd.byte (index + 1) 0 =
      some (index + body.size + 2) := by
    rw [Block.closeAfter?_block stands.tail.left, Block.size, closeAfter?_found behind.head]
    congr 1
    omega
  simp only [jumpForward, if_neg inner, Nat.add_sub_cancel, first, found]

/-- Behind the end of a loop, the jump to the left ends behind the beginning of that loop. -/
theorem jumpBackward_loop (stands : Stands code.bytes index (Block.loop body rest).bytes) :
    ({ code with pc := index + body.size + 2 } : Code).jumpBackward loopStart.byte =
      (true, { code with pc := index + 1 }) := by
  have behind := stands.tail.right
  have last : code.bytes.getD (index + body.size + 1) 0 = loopEnd.byte := by
    rw [show index + body.size + 1 = index + 1 + body.bytes.length by rw [Block.size]; omega]
    exact getD_eq behind.head
  have inner : ¬ index + body.size + 2 ≤ 1 := by omega
  have found : openBefore? code.bytes loopStart.byte loopEnd.byte (index + body.size + 1) 0 =
      some (index + 1) := by
    rw [show index + body.size + 1 = index + 1 + body.size by omega,
      Block.openBefore?_block stands.tail.left, openBefore?_found stands.head]
  have before : index + body.size + 2 - 1 = index + body.size + 1 := by omega
  simp only [jumpBackward, if_neg inner, before, last, found]

end Code

end TapeNet
