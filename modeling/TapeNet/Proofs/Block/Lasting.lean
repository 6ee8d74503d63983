import TapeNet.Proofs.Block.Interpretation
import TapeNet.Proofs.Code.Written
import TapeNet.Proofs.Tape.Bulk

/-!
# How long programs run

For every number there is a program that finishes after exactly as many steps.
An empty loop takes one step as long as the cell is zero.  A loop that counts
the current cell down from 255, with a program of this kind in the next cell as
its body, takes 255 times the steps of the body and 1022 more; so the program
for a large number is still a short one.  And there are programs that go on for
ever, such as a loop of which no round leaves a cell that is zero.
-/

namespace TapeNet

namespace Block

/-- So many empty loops, in front of another block. -/
def idling : Nat → Block → Block
  | 0, rest => rest
  | count + 1, rest => .loop .done (idling count rest)

/-- A loop that counts down from 255, with a front in the next cell as its body. -/
def counting (front : Block → Block) (rest : Block) : Block :=
  .decrement (.loop (.right (front (.left (.decrement .done)))) rest)

/-- What takes so many steps in front of another block, with loops in each other down to a depth. -/
def lasting : Nat → Nat → Block → Block
  | 0, steps => idling steps
  | depth + 1, steps =>
    if steps < 1022 then
      idling steps
    else
      fun rest =>
        counting (lasting depth ((steps - 1022) / 255)) (idling ((steps - 1022) % 255) rest)

/-- The block of `+-`, which adds one and takes it away again. -/
def restoring : Block :=
  .increment (.decrement .done)

/-- The block of `++[+-]`, which adds two and then goes on with such rounds. -/
def spinning : Block :=
  .increment (.increment (.loop restoring .done))

end Block

namespace Tape

/-- From the pointer on there are so many further cells, and all of them are zero. -/
structure Clear (tape : Tape) (depth : Nat) : Prop where
  inside : tape.WellFormed
  room : tape.pointer + depth < length
  zero : ∀ offset ≤ depth, tape.cellAt (tape.pointer + offset) = 0

theorem clear_blank {depth : Nat} (room : depth < length) : blank.Clear depth where
  inside := blank_wellFormed
  room := (Nat.zero_add depth).symm ▸ room
  zero _ _ := cellAt_blank _

/-- The tape with a value in the current cell and the pointer on the next one. -/
def beyond (tape : Tape) (value : UInt8) : Tape :=
  { tape.put value with pointer := tape.pointer + 1 }

namespace Clear

variable {tape : Tape} {depth : Nat}

theorem cell_eq (clear : tape.Clear depth) : tape.cell = 0 :=
  clear.zero 0 (Nat.zero_le depth)

theorem advance_put (clear : tape.Clear (depth + 1)) (value : UInt8) :
    (tape.put value).advance 1 = (tape.beyond value, true) := by
  have room := clear.room
  have enough : 1 ≤ length - 1 - (tape.put value).pointer := by
    change 1 ≤ length - 1 - tape.pointer
    omega
  rw [advance, if_pos enough]
  rfl

theorem beyond (clear : tape.Clear (depth + 1)) (value : UInt8) :
    (tape.beyond value).Clear depth where
  inside := by
    have kept := (clear.inside.modify fun _ => value).advance 1
    rw [show tape.modify (fun _ => value) = tape.put value from rfl, clear.advance_put] at kept
    exact kept
  room := by
    have room := clear.room
    change tape.pointer + 1 + depth < length
    omega
  zero offset le := by
    have other : tape.pointer + 1 + offset ≠ tape.pointer := by omega
    have kept : (tape.put value).cellAt (tape.pointer + 1 + offset) =
        tape.cellAt (tape.pointer + 1 + offset) := cellAt_modify other _
    refine kept.trans ?_
    rw [Nat.add_assoc]
    exact clear.zero (1 + offset) (by omega)

end Clear

end Tape

open Evaluation

section

variable {σ : Type} (transport : Transport σ)

/--
In front of whatever block, a front goes on after this cost, and has made one
tape of another.
-/
def Spends (front : Block → Block) (first last : Tape) (cost : Nat) : Prop :=
  ∀ m : Machine σ, m.tape = first → ∃ middle : Machine σ, middle.tape = last ∧
    ∀ rest final stop more, rest.Evaluates transport middle ⟨final, stop, more⟩ →
      (front rest).Evaluates transport m ⟨final, stop, cost + more⟩

/-- The rounds of a loop end after this cost, and have made one tape of another. -/
def SpendsRounds (body : Block) (first last : Tape) (cost : Nat) : Prop :=
  ∀ m : Machine σ, m.tape = first → ∃ final : Machine σ, final.tape = last ∧
    Rounds (body.Evaluates transport) m ⟨final, none, cost⟩

end

namespace Spends

variable {σ : Type} {transport : Transport σ} {front behind : Block → Block}
  {first middle last : Tape} {cost more : Nat}

theorem refl (tape : Tape) : Spends transport (fun rest => rest) tape tape 0 := by
  intro m same
  refine ⟨m, same, fun rest final stop more evaluates => ?_⟩
  rw [Nat.zero_add]
  exact evaluates

theorem trans (before : Spends transport front first middle cost)
    (after : Spends transport behind middle last more) :
    Spends transport (fun rest => front (behind rest)) first last (cost + more) := by
  intro m same
  obtain ⟨next, same', here⟩ := before m same
  obtain ⟨final, same'', there⟩ := after next same'
  refine ⟨final, same'', fun rest final stop further evaluates => ?_⟩
  rw [Nat.add_assoc]
  exact here _ _ _ _ (there _ _ _ _ evaluates)

theorem leaf {op : Opcode} (straight : op.isBracket = false)
    (goes : ∀ m : Machine σ, m.tape = first →
      (m.perform transport op 1).1.tape = last ∧ (m.perform transport op 1).2 = none) :
    Spends transport (.leaf op straight) first last 1 := by
  intro m same
  obtain ⟨same', on⟩ := goes m same
  refine ⟨(m.perform transport op 1).1.noted op, same', fun rest final stop more evaluates => ?_⟩
  exact (Block.evaluates_leaf_iff on).mpr ⟨more, rfl, evaluates⟩

theorem decrement (tape : Tape) : Spends transport .decrement tape (tape.sub 1) 1 :=
  .leaf rfl fun _ same => ⟨congrArg (Tape.sub · 1) same, rfl⟩

theorem right (moves : first.advance 1 = (last, true)) :
    Spends transport .right first last 1 := by
  refine .leaf rfl fun m same => ?_
  subst same
  exact ⟨congrArg Prod.fst moves, if_pos (congrArg Prod.snd moves)⟩

theorem left (moves : first.retreat 1 = (last, true)) :
    Spends transport .left first last 1 := by
  refine .leaf rfl fun m same => ?_
  subst same
  exact ⟨congrArg Prod.fst moves, if_pos (congrArg Prod.snd moves)⟩

theorem skipped {tape : Tape} (zero : tape.cell = 0) (body : Block) :
    Spends transport (.loop body) tape tape 1 := by
  intro m same
  subst same
  exact ⟨m.noted .loopStart, rfl, fun _ _ _ _ evaluates => .both (.skipped zero) evaluates⟩

theorem entered {body : Block} (other : first.cell ≠ 0)
    (rounds : SpendsRounds transport body first last cost) :
    Spends transport (.loop body) first last (1 + cost) := by
  intro m same
  subst same
  obtain ⟨final, same', ends⟩ := rounds (m.noted .loopStart) rfl
  exact ⟨final, same', fun _ _ _ _ evaluates => .both (.entered other ends) evaluates⟩

/-- With nothing behind it, a front is a block of its own. -/
theorem evaluates (spends : Spends transport front first last cost) {m : Machine σ}
    (same : m.tape = first) : ∃ final : Machine σ, final.tape = last ∧
      (front .done).Evaluates transport m ⟨final, none, cost⟩ := by
  obtain ⟨final, same', ends⟩ := spends m same
  exact ⟨final, same', ends .done final none 0 rfl⟩

theorem lastRound (spends : Spends transport front first last cost) (zero : last.cell = 0) :
    SpendsRounds transport (front .done) first last (cost + 1) := by
  intro m same
  obtain ⟨final, rfl, ends⟩ := spends.evaluates same
  exact ⟨final.noted .loopEnd, rfl, .last ends zero⟩

theorem anotherRound (spends : Spends transport front first middle cost) (other : middle.cell ≠ 0)
    (rounds : SpendsRounds transport (front .done) middle last more) :
    SpendsRounds transport (front .done) first last (cost + 1 + more) := by
  intro m same
  obtain ⟨next, rfl, ends⟩ := spends.evaluates same
  obtain ⟨final, same', others⟩ := rounds (next.noted .loopEnd) rfl
  exact ⟨final, same', .again ends other others⟩

theorem idling {tape : Tape} (zero : tape.cell = 0) (count : Nat) :
    Spends transport (Block.idling count) tape tape count := by
  induction count with
  | zero => exact .refl tape
  | succ count ih =>
      have all := (skipped zero .done).trans ih
      rw [Nat.add_comm 1 count] at all
      exact all

/-- The body of a loop that counts down: a front in the next cell, and back again. -/
theorem round {tape next : Tape} (moves : tape.advance 1 = (next, true))
    (inner : Spends transport front next next cost) :
    Spends transport (fun rest => .right (front (.left (.decrement rest)))) tape (tape.sub 1)
      (cost + 3) := by
  have back := Tape.retreat_advance (congrArg Prod.snd moves)
  rw [moves] at back
  have all := (right moves).trans (inner.trans ((left back).trans (decrement tape)))
  rw [show 1 + (cost + (1 + 1)) = cost + 3 by omega] at all
  exact all

section

variable {tape : Tape} (inside : tape.WellFormed)
  (moves : ∀ value, (tape.put value).advance 1 = (tape.beyond value, true))
  (inner : ∀ value, Spends transport front (tape.beyond value) (tape.beyond value) cost)

include inside moves inner

/-- The rounds that are left when the current cell has counted down to a value. -/
theorem rounds {count : Nat} (small : count < 255) :
    SpendsRounds transport (.right (front (.left (.decrement .done))))
      (tape.put (UInt8.ofNat (count + 1))) (tape.put 0) ((count + 1) * (cost + 4)) := by
  have less (count : Nat) :
      (tape.put (UInt8.ofNat (count + 1))).sub 1 = tape.put (UInt8.ofNat count) := by
    rw [Tape.put, Tape.sub, Tape.modify_modify, UInt8.ofNat_add]
    exact Tape.modify_congr (UInt8.add_sub_cancel _ _)
  have once (count : Nat) := round (moves (UInt8.ofNat (count + 1))) (inner _)
  simp only [less] at once
  induction count with
  | zero =>
      have only := (once 0).lastRound (Tape.cell_put inside _)
      rw [show cost + 3 + 1 = (0 + 1) * (cost + 4) by omega] at only
      exact only
  | succ count ih =>
      have other : (tape.put (UInt8.ofNat (count + 1))).cell ≠ 0 := by
        rw [Tape.cell_put inside]
        intro zero
        have value := congrArg UInt8.toNat zero
        rw [UInt8.toNat_ofNat', UInt8.toNat_zero] at value
        omega
      have all := (once (count + 1)).anotherRound other (ih (by omega))
      rw [show cost + 3 + 1 + (count + 1) * (cost + 4) = (count + 1 + 1) * (cost + 4) by
        rw [Nat.succ_mul (count + 1)]; omega] at all
      exact all

/-- A loop that counts down from a zero cell spends 255 times what its front spends, and 1022. -/
theorem counting (zero : tape.cell = 0) :
    Spends transport (Block.counting front) tape tape (255 * cost + 1022) := by
  have largest : tape.sub 1 = tape.put (UInt8.ofNat (254 + 1)) :=
    Tape.modify_congr (by rw [zero]; rfl)
  have cleared : tape.put 0 = tape := Tape.modify_of_kept zero.symm
  have other : (tape.put (UInt8.ofNat (254 + 1))).cell ≠ 0 := by
    rw [Tape.cell_put inside]
    decide
  have loops := entered other (rounds inside moves inner (by omega : 254 < 255))
  rw [← largest] at loops
  have all := (decrement tape).trans loops
  rw [cleared, show 1 + (1 + (254 + 1) * (cost + 4)) = 255 * cost + 1022 by omega] at all
  exact all

end

theorem lasting {depth : Nat} {tape : Tape} (clear : tape.Clear depth) (steps : Nat) :
    Spends transport (Block.lasting depth steps) tape tape steps := by
  induction depth generalizing tape steps with
  | zero => exact .idling clear.cell_eq steps
  | succ depth ih =>
      unfold Block.lasting
      split
      · exact .idling clear.cell_eq steps
      · next many =>
          have counts := counting clear.inside clear.advance_put
            (fun value => ih (clear.beyond value) ((steps - 1022) / 255)) clear.cell_eq
          have all := counts.trans (.idling clear.cell_eq ((steps - 1022) % 255))
          rw [show 255 * ((steps - 1022) / 255) + 1022 + (steps - 1022) % 255 = steps by
            omega] at all
          exact all

end Spends

section

variable {σ : Type} {transport : Transport σ} {m : Machine σ}

theorem evaluates_restoring {ending : Ending σ}
    (evaluates : Block.restoring.Evaluates transport m ending) :
    ending.stop = none ∧ ending.machine.tape = m.tape := by
  obtain ⟨last, stop, cost⟩ := ending
  obtain ⟨_, _, evaluates⟩ := (Block.evaluates_leaf_iff rfl).mp evaluates
  obtain ⟨_, _, evaluates⟩ := (Block.evaluates_leaf_iff rfl).mp evaluates
  cases evaluates
  refine ⟨rfl, ?_⟩
  change (m.tape.add 1).sub 1 = m.tape
  rw [Tape.add, Tape.sub, Tape.modify_modify]
  exact Tape.modify_of_kept (UInt8.add_sub_cancel _ _)

/-- From a zero cell the rounds never end, for they start from two and restore it every time. -/
theorem not_evaluates_spinning (inside : m.tape.WellFormed) (zero : m.tape.cell = 0)
    (ending : Ending σ) : ¬ Block.spinning.Evaluates transport m ending := by
  have two : ((m.tape.add 1).add 1).cell = m.tape.cell + 1 + 1 :=
    (Tape.cell_modify (inside.modify _) _).trans (congrArg (· + 1) (Tape.cell_modify inside _))
  have other : ((m.tape.add 1).add 1).cell ≠ 0 := by
    rw [two, zero]
    decide
  intro evaluates
  obtain ⟨last, stop, cost⟩ := ending
  obtain ⟨_, _, evaluates⟩ := (Block.evaluates_leaf_iff rfl).mp evaluates
  obtain ⟨_, _, evaluates⟩ := (Block.evaluates_leaf_iff rfl).mp evaluates
  have kept (m : Machine σ) (ending : Ending σ) (other : m.tape.cell ≠ 0)
      (evaluates : Block.restoring.Evaluates transport m ending) :
      ending.stop = none ∧ ending.machine.tape.cell ≠ 0 := by
    obtain ⟨on, same⟩ := evaluates_restoring evaluates
    rw [same]
    exact ⟨on, other⟩
  cases evaluates with
  | aborted loops =>
      refine Loop.not_of_kept kept ?_ loops
      exact other
  | both loops _ =>
      refine Loop.not_of_kept kept ?_ loops
      exact other

end

namespace Block

/-- A block of opcodes that need no extension. -/
def Core (block : Block) : Prop :=
  ∀ byte ∈ block.bytes, Opcode.isValid .empty byte = true

theorem core_done : done.Core :=
  List.forall_mem_nil _

theorem core_leaf {op : Opcode} {straight : op.isBracket = false} {rest : Block}
    (valid : Opcode.isValid .empty op.byte = true) (core : rest.Core) :
    (leaf op straight rest).Core :=
  List.forall_mem_cons.mpr ⟨valid, core⟩

theorem core_loop {body rest : Block} (inner : body.Core) (core : rest.Core) :
    (loop body rest).Core := by
  refine List.forall_mem_cons.mpr ⟨by decide, List.forall_mem_append.mpr ⟨inner, ?_⟩⟩
  exact List.forall_mem_cons.mpr ⟨by decide, core⟩

theorem core_idling {rest : Block} (core : rest.Core) (count : Nat) : (idling count rest).Core := by
  induction count with
  | zero => exact core
  | succ count ih => exact core_loop core_done ih

theorem core_lasting (depth steps : Nat) {rest : Block} (core : rest.Core) :
    (lasting depth steps rest).Core := by
  induction depth generalizing steps rest with
  | zero => exact core_idling core steps
  | succ depth ih =>
      unfold lasting
      split
      · exact core_idling core steps
      · have back : (left (decrement done)).Core :=
          core_leaf (by decide) (core_leaf (by decide) core_done)
        exact core_leaf (by decide)
          (core_loop (core_leaf (by decide) (ih _ back)) (core_idling core _))

end Block

namespace Machine

variable {σ : Type} {transport : Transport σ}

/-- The text of a program that takes so many steps. -/
def lastingText (depth steps : Nat) : List UInt8 :=
  (Block.lasting depth steps .done).bytes

theorem parse_lastingText (depth steps : Nat) :
    Code.parse (lastingText depth steps) = { bytes := (lastingText depth steps).toArray } :=
  Code.parse_of_isValid (Block.core_lasting depth steps Block.core_done)

/-- However many steps are asked for, the program finishes after exactly as many. -/
theorem lastingText_finishes {m : Machine σ} {depth steps : Nat}
    (loaded : m.code = .parse (lastingText depth steps)) (off : m.options.fold = false)
    (clear : m.tape.Clear depth) :
    ∃ last, Proceeds transport steps m last ∧ last.step transport = (last, some .finished) := by
  have written : (Block.lasting depth steps .done).bytes =
      (Code.parse (lastingText depth steps)).bytes.toList := by
    rw [parse_lastingText, lastingText]
  have spends : Spends transport (Block.lasting depth steps) m.tape m.tape steps :=
    .lasting clear steps
  obtain ⟨final, _, ends⟩ := spends.evaluates rfl
  exact ⟨_, (Realizes.program written).finishes rfl ⟨loaded, off, clear.inside⟩ ends⟩

example : lastingText 8 1024 =
    (['-', '[', '>', '<', '-', ']', '[', ']', '[', ']'] : List Char).map Char.toUInt8 := by
  decide

/-- The text of a program that goes on for ever. -/
def spinningText : List UInt8 :=
  Block.spinning.bytes

theorem spinningText_endless {m : Machine σ} (loaded : m.code = .parse spinningText)
    (off : m.options.fold = false) (inside : m.tape.WellFormed) (zero : m.tape.cell = 0)
    (count : Nat) : ∃ last, Proceeds transport count m last := by
  have written : Block.spinning.bytes = (Code.parse spinningText).bytes.toList := by
    decide +kernel
  exact (Realizes.program written).endless rfl ⟨loaded, off, inside⟩
    (not_evaluates_spinning inside zero) count

end Machine

end TapeNet
