import TapeNet.Proofs.Code.Balance

/-!
# Blocks

A block is code seen as a tree: opcodes in a row, some of them loops around
another block.  Code whose brackets are well nested is the code of exactly one
block.
-/

namespace TapeNet

/-- Whether an opcode begins or ends a loop. -/
def Opcode.isBracket : Opcode → Bool
  | loopStart | loopEnd => true
  | _ => false

theorem Opcode.byte_ne_of_isBracket {op bracket : Opcode} (straight : op.isBracket = false)
    (is_bracket : bracket.isBracket = true) : op.byte ≠ bracket.byte := by
  intro same
  rw [byte_injective same, is_bracket] at straight
  cases straight

/-- Code as a tree: nothing, an opcode and what follows it, or a loop and what follows it. -/
inductive Block where
  | done
  | leaf (op : Opcode) (straight : op.isBracket = false) (rest : Block)
  | loop (body rest : Block)

/--
Brackets are well nested if there are as many that open as close, and no
beginning of the code has more that close.
-/
def WellNested (bytes : List UInt8) : Prop :=
  bytes.count Opcode.loopEnd.byte = bytes.count Opcode.loopStart.byte ∧
    ∀ length ≤ bytes.length, (bytes.take length).count Opcode.loopEnd.byte ≤
      (bytes.take length).count Opcode.loopStart.byte

instance (bytes : List UInt8) : Decidable (WellNested bytes) :=
  inferInstanceAs (Decidable (_ ∧ ∀ _ ≤ _, _))

namespace Block

/-- Adds one to the cell, and goes on. -/
def increment (rest : Block) : Block :=
  .leaf .increment rfl rest

/-- Takes one from the cell, and goes on. -/
def decrement (rest : Block) : Block :=
  .leaf .decrement rfl rest

/-- Goes on with the next cell. -/
def right (rest : Block) : Block :=
  .leaf .moveRight rfl rest

/-- Goes on with the previous cell. -/
def left (rest : Block) : Block :=
  .leaf .moveLeft rfl rest

/-- The code of a block. -/
def bytes : Block → List UInt8
  | .done => []
  | .leaf op _ rest => op.byte :: rest.bytes
  | .loop body rest =>
    Opcode.loopStart.byte :: (body.bytes ++ Opcode.loopEnd.byte :: rest.bytes)

/-- Several blocks, with a closing bracket before each of them. -/
def closings : List Block → List UInt8
  | [] => []
  | block :: blocks => Opcode.loopEnd.byte :: (block.bytes ++ closings blocks)

end Block

/--
Code that closes `depth` brackets more than it opens: this many at the end,
and nowhere more before.
-/
def Closes (depth : Nat) (bytes : List UInt8) : Prop :=
  bytes.count Opcode.loopEnd.byte = bytes.count Opcode.loopStart.byte + depth ∧
    ∀ front, front <+: bytes →
      front.count Opcode.loopEnd.byte ≤ front.count Opcode.loopStart.byte + depth

theorem WellNested.closes {bytes : List UInt8} (nested : WellNested bytes) : Closes 0 bytes := by
  refine ⟨nested.1, ?_⟩
  intro front ⟨back, split⟩
  have beginning := nested.2 front.length (by rw [← split, List.length_append]; omega)
  rw [← split, List.take_left] at beginning
  exact beginning

theorem loopStart_ne_loopEnd : Opcode.loopStart.byte ≠ Opcode.loopEnd.byte := by
  decide

namespace Closes

theorem iff_descends {depth : Nat} {bytes : List UInt8} :
    Closes depth bytes ↔
      Code.Descends Opcode.loopStart.byte Opcode.loopEnd.byte depth bytes := by
  have counted := Code.opens_of_ne loopStart_ne_loopEnd
  constructor
  · rintro ⟨total, beginnings⟩
    refine ⟨?_, ?_⟩
    · rw [counted, total]
    · intro front beginning
      rw [counted]
      exact beginnings front beginning
  · rintro ⟨total, beginnings⟩
    refine ⟨?_, ?_⟩
    · rw [total, counted]
    · intro front beginning
      rw [← counted]
      exact beginnings front beginning

/-- Behind an opening bracket, one more has to be closed. -/
theorem of_opening {depth : Nat} {rest : List UInt8}
    (closes : Closes depth (Opcode.loopStart.byte :: rest)) : Closes (depth + 1) rest := by
  rw [iff_descends] at closes ⊢
  exact (Code.descends_opening_iff loopStart_ne_loopEnd).mp closes

/-- Behind a closing bracket, one less has to be closed. -/
theorem of_closing {depth : Nat} {rest : List UInt8}
    (closes : Closes depth (Opcode.loopEnd.byte :: rest)) :
    ∃ less, depth = less + 1 ∧ Closes less rest := by
  obtain ⟨less, count, descends⟩ := Code.descends_closing_iff.mp (iff_descends.mp closes)
  exact ⟨less, count, iff_descends.mpr descends⟩

/-- Behind any other byte, as many have to be closed as before. -/
theorem of_other {depth : Nat} {byte : UInt8} {rest : List UInt8}
    (closes : Closes depth (byte :: rest)) (starts : byte ≠ Opcode.loopStart.byte)
    (ends : byte ≠ Opcode.loopEnd.byte) : Closes depth rest := by
  rw [iff_descends] at closes ⊢
  exact (Code.descends_other_iff starts ends).mp closes

/-- Such code is a block, and behind it as many others as there are brackets to close. -/
theorem exists_blocks {depth : Nat} {bytes : List UInt8} (closes : Closes depth bytes)
    (valid : ∀ byte ∈ bytes, ∃ op : Opcode, byte = op.byte) :
    ∃ (block : Block) (blocks : List Block), blocks.length = depth ∧
      bytes = block.bytes ++ Block.closings blocks := by
  induction bytes generalizing depth with
  | nil =>
      have none_left : depth = 0 := by
        have total := closes.1
        rw [List.count_nil, List.count_nil] at total
        omega
      exact ⟨.done, [], none_left.symm, rfl⟩
  | cons byte rest ih =>
      obtain ⟨⟨op, rfl⟩, others⟩ := List.forall_mem_cons.mp valid
      cases straight : op.isBracket with
      | false =>
          have starts := Opcode.byte_ne_of_isBracket straight (rfl : Opcode.loopStart.isBracket = true)
          have ends := Opcode.byte_ne_of_isBracket straight (rfl : Opcode.loopEnd.isBracket = true)
          obtain ⟨block, blocks, rfl, split⟩ := ih (closes.of_other starts ends) others
          refine ⟨.leaf op straight block, blocks, rfl, ?_⟩
          rw [split]
          rfl
      | true =>
          cases op with
          | loopStart =>
              rcases ih closes.of_opening others with ⟨body, _ | ⟨after, blocks⟩, count, split⟩
              · cases count
              · refine ⟨.loop body after, blocks, Nat.succ.inj count, ?_⟩
                rw [split]
                simp only [Block.bytes, Block.closings, List.cons_append, List.append_assoc]
          | loopEnd =>
              obtain ⟨less, rfl, fewer⟩ := closes.of_closing
              obtain ⟨block, blocks, rfl, split⟩ := ih fewer others
              refine ⟨.done, block :: blocks, rfl, ?_⟩
              rw [split]
              rfl
          | _ => cases straight

end Closes

namespace Block

/-- Where a block can end: at the end of the code or before a closing bracket. -/
def Follows (bytes : List UInt8) : Prop :=
  bytes = [] ∨ ∃ rest, bytes = Opcode.loopEnd.byte :: rest

theorem Follows.ne_cons {op : Opcode} {bytes : List UInt8} (follows : Follows bytes)
    (other : op.byte ≠ Opcode.loopEnd.byte) (rest : List UInt8) : bytes ≠ op.byte :: rest := by
  intro same
  rcases follows with rfl | ⟨_, rfl⟩
  · cases same
  · exact other (List.cons.inj same).1.symm

/-- Code determines the block that it begins with, up to where the block can end. -/
theorem eq_of_append_eq {first second : Block} {front back : List UInt8}
    (ends_first : Follows front) (ends_second : Follows back)
    (same : first.bytes ++ front = second.bytes ++ back) : first = second ∧ front = back := by
  induction first generalizing second front back with
  | done =>
      cases second with
      | done => exact ⟨rfl, same⟩
      | leaf op straight rest =>
          have other := Opcode.byte_ne_of_isBracket straight (rfl : Opcode.loopEnd.isBracket = true)
          exact absurd same (ends_first.ne_cons other _)
      | loop body rest => exact absurd same (ends_first.ne_cons loopStart_ne_loopEnd _)
  | leaf op straight rest ih =>
      cases second with
      | done =>
          have other := Opcode.byte_ne_of_isBracket straight (rfl : Opcode.loopEnd.isBracket = true)
          exact absurd same.symm (ends_second.ne_cons other _)
      | leaf op' straight' rest' =>
          obtain ⟨head, tail⟩ := List.cons.inj same
          cases Opcode.byte_injective head
          obtain ⟨rfl, rfl⟩ := ih ends_first ends_second tail
          exact ⟨rfl, rfl⟩
      | loop body rest' =>
          obtain ⟨head, _⟩ := List.cons.inj same
          exact absurd head (Opcode.byte_ne_of_isBracket straight rfl)
  | loop body rest body_ih rest_ih =>
      cases second with
      | done => exact absurd same.symm (ends_second.ne_cons loopStart_ne_loopEnd _)
      | leaf op straight rest' =>
          obtain ⟨head, _⟩ := List.cons.inj same
          exact absurd head.symm (Opcode.byte_ne_of_isBracket straight rfl)
      | loop body' rest' =>
          simp only [bytes, List.cons_append, List.append_assoc] at same
          obtain ⟨_, tail⟩ := List.cons.inj same
          obtain ⟨rfl, after⟩ := body_ih (.inr ⟨_, rfl⟩) (.inr ⟨_, rfl⟩) tail
          obtain ⟨_, after⟩ := List.cons.inj after
          obtain ⟨rfl, rfl⟩ := rest_ih ends_first ends_second after
          exact ⟨rfl, rfl⟩

theorem bytes_injective {first second : Block} (same : first.bytes = second.bytes) :
    first = second := by
  have extended : first.bytes ++ [] = second.bytes ++ [] := by
    rw [List.append_nil, List.append_nil, same]
  exact (eq_of_append_eq (.inl rfl) (.inl rfl) extended).1

end Block

/-- Well nested code that consists of opcodes is the code of exactly one block. -/
theorem WellNested.existsUnique_block {bytes : List UInt8} (nested : WellNested bytes)
    (valid : ∀ byte ∈ bytes, ∃ op : Opcode, byte = op.byte) :
    ∃ block : Block, block.bytes = bytes ∧ ∀ other : Block, other.bytes = bytes → other = block := by
  obtain ⟨block, blocks, count, split⟩ := nested.closes.exists_blocks valid
  cases List.length_eq_zero_iff.mp count
  have whole : block.bytes = bytes := by
    rw [split, Block.closings, List.append_nil]
  refine ⟨block, whole, ?_⟩
  intro other same
  exact Block.bytes_injective (same.trans whole.symm)

end TapeNet
