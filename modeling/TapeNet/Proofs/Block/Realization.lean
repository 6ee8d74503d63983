import TapeNet.Proofs.Block.Evaluation
import TapeNet.Proofs.Block.Scan
import TapeNet.Proofs.Machine.Run

/-!
# Running a block

Where the code of a block stands, the steps of a machine that does not fold
lead to the endings of that block and to no others, and there are as many
steps as the ending costs.  A run of well nested code is therefore over
exactly when the evaluation of its block is.
-/

namespace TapeNet

namespace Machine

variable {σ : Type}

/-- The machine with the instruction at an index as its next one. -/
def facing (m : Machine σ) (index : Nat) : Machine σ :=
  { m with code := { m.code with pc := index } }

/-- A machine with some code that does not fold. -/
structure Plain (code : Code) (m : Machine σ) : Prop where
  code_eq : m.code = code
  off : m.options.fold = false
  inside : m.tape.WellFormed

section

variable (transport : Transport σ)

/-- An opcode that is no bracket neither reads nor changes the code. -/
theorem perform_code (m : Machine σ) (code : Code) {op : Opcode} (straight : op.isBracket = false)
    (count : Nat) :
    ({ m with code } : Machine σ).perform transport op count =
      ({ (m.perform transport op count).1 with code }, (m.perform transport op count).2) := by
  cases op with
  | input =>
      simp only [perform, readIn]
      split <;> rfl
  | receive =>
      simp only [perform, receiveIn]
      split <;> rfl
  | flush =>
      simp only [perform, sendOut]
      split <;> rfl
  | loopStart | loopEnd => cases straight
  | _ => rfl

end

namespace Plain

variable {code : Code} {m : Machine σ}

theorem noted (plain : Plain code m) (op : Opcode) : Plain code (m.noted op) :=
  ⟨plain.code_eq, plain.off, plain.inside⟩

section

variable (transport : Transport σ)

theorem perform (plain : Plain code m) {op : Opcode} (straight : op.isBracket = false)
    (count : Nat) : Plain code (m.perform transport op count).1 := by
  refine ⟨?_, ?_, perform_inside transport plain.inside op count⟩
  · have same := congrArg (fun result => result.1.code) (perform_code transport m m.code straight count)
    exact Eq.trans same plain.code_eq
  · rw [perform_options]
    exact plain.off

/-- A step of a machine that does not fold executes an opcode once. -/
theorem step (plain : Plain code m) {index : Nat} {op : Opcode}
    (here : code.bytes[index]? = some op.byte)
    (decoded : Opcode.decode? op.byte code.extensions = some op) :
    (m.facing index).step transport =
      (((m.facing (index + 1)).perform transport op 1).1.noted op,
        ((m.facing (index + 1)).perform transport op 1).2) := by
  obtain ⟨rfl, off, inside⟩ := plain
  have single : ((m.facing index).options.fold && op.isFoldable) = false := by
    rw [show (m.facing index).options.fold = false from off, Bool.false_and]
  have next : (m.facing index).code.bytes[(m.facing index).code.pc]? = some op.byte := here
  have kept : (m.facing (index + 1)).tape.WellFormed := inside
  have once := execute_one transport kept op
  rw [← perform_report transport (m.facing (index + 1)) op 1] at once
  exact (step_of_single transport next decoded single).trans once

/-- A leaf goes on to the next instruction. -/
theorem step_leaf (plain : Plain code m) {index : Nat} {op : Opcode}
    (here : code.bytes[index]? = some op.byte)
    (decoded : Opcode.decode? op.byte code.extensions = some op) (straight : op.isBracket = false) :
    (m.facing index).step transport =
      (((m.perform transport op 1).1.noted op).facing (index + 1),
        (m.perform transport op 1).2) := by
  have kept := (plain.perform transport straight 1).code_eq
  rw [plain.step transport here decoded, facing, perform_code transport m _ straight]
  simp only [facing, Machine.noted, kept, plain.code_eq]

/-- A loop is left alone if the cell is zero, and entered otherwise. -/
theorem step_loopStart (plain : Plain code m) {index : Nat} {body rest : Block}
    (stands : Stands code.bytes index (Block.loop body rest).bytes)
    (decoded : Opcode.decode? Opcode.loopStart.byte code.extensions = some .loopStart) :
    (m.facing index).step transport =
      ((m.noted .loopStart).facing
        (if m.tape.cell = 0 then index + body.size + 2 else index + 1), none) := by
  have jump := Code.jumpForward_loop stands
  rw [plain.step transport stands.head decoded]
  by_cases zero : m.tape.cell = 0
  · have taken : (m.facing (index + 1)).enterLoop = (m.facing (index + body.size + 2), none) := by
      rw [enterLoop, if_pos (show (m.facing (index + 1)).tape.cell = 0 from zero)]
      simp only [facing, plain.code_eq, jump]
    simp only [Machine.perform, taken, if_pos zero]
    rfl
  · have ignored : (m.facing (index + 1)).enterLoop = (m.facing (index + 1), none) := if_neg zero
    simp only [Machine.perform, ignored, if_neg zero]
    rfl

/-- The test behind a body goes on behind the loop if the cell is zero, and with the body otherwise. -/
theorem step_loopEnd (plain : Plain code m) {index : Nat} {body rest : Block}
    (stands : Stands code.bytes index (Block.loop body rest).bytes)
    (decoded : Opcode.decode? Opcode.loopEnd.byte code.extensions = some .loopEnd) :
    (m.facing (index + 1 + body.size)).step transport =
      ((m.noted .loopEnd).facing
        (if m.tape.cell = 0 then index + body.size + 2 else index + 1), none) := by
  have jump := Code.jumpBackward_loop stands
  have place : index + 1 + body.size + 1 = index + body.size + 2 := by omega
  have here : code.bytes[index + 1 + body.size]? = some Opcode.loopEnd.byte :=
    stands.tail.right.head
  rw [plain.step transport here decoded, place]
  by_cases zero : m.tape.cell = 0
  · have ignored : (m.facing (index + body.size + 2)).repeatLoop =
        (m.facing (index + body.size + 2), none) := if_pos zero
    simp only [Machine.perform, ignored, if_pos zero]
    rfl
  · have taken : (m.facing (index + body.size + 2)).repeatLoop = (m.facing (index + 1), none) := by
      rw [repeatLoop, if_neg (show ¬ (m.facing (index + body.size + 2)).tape.cell = 0 from zero)]
      simp only [facing, plain.code_eq, jump]
    simp only [Machine.perform, taken, if_neg zero]
    rfl

end

end Plain

/-- The steps of a machine lead to an ending; without an abortion, they lead on to an index. -/
inductive Reaches (transport : Transport σ) (m : Machine σ) (finish : Nat) : Ending σ → Prop where
  | done {last : Machine σ} {cost : Nat}
      (steps : Proceeds transport cost m (last.facing finish)) :
      Reaches transport m finish ⟨last, none, cost⟩
  | aborted {before last : Machine σ} {stop : Stop} {cost index : Nat}
      (steps : Proceeds transport cost m before)
      (stops : before.step transport = (last.facing index, some stop))
      (failed : stop ≠ .finished ∧ stop ≠ .budgetSpent) :
      Reaches transport m finish ⟨last, some stop, cost + 1⟩

/--
The steps that begin at one index lead to the endings that a meaning gives,
and to no others, and go on at another index.
-/
structure Realizes (transport : Transport σ) (code : Code) (start finish : Nat)
    (Meaning : Machine σ → Ending σ → Prop) : Prop where
  sound : ∀ m ending, Plain code m → Meaning m ending →
    Plain code ending.machine ∧ Reaches transport (m.facing start) finish ending
  complete : ∀ m budget, Plain code m →
    (∃ ending, Meaning m ending ∧ ending.cost ≤ budget) ∨
      ∃ last, Proceeds transport budget (m.facing start) last

section

variable {transport : Transport σ}

theorem Reaches.behind {m next last : Machine σ} {finish count cost : Nat} {stop : Option Stop}
    (before : Proceeds transport count m next)
    (reaches : Reaches transport next finish ⟨last, stop, cost⟩) :
    Reaches transport m finish ⟨last, stop, count + cost⟩ := by
  cases reaches with
  | done steps => exact .done (before.trans steps)
  | aborted steps stops failed => exact .aborted (before.trans steps) stops failed

end

namespace Realizes

open Evaluation

variable {transport : Transport σ} {code : Code} {start finish : Nat}

theorem done : Realizes transport code start start fun m ending => ending = ⟨m, none, 0⟩ where
  sound := by
    rintro m _ plain rfl
    exact ⟨plain, .done (.here _)⟩
  complete := by
    intro m budget plain
    exact .inl ⟨_, rfl, Nat.zero_le budget⟩

theorem leaf {op : Opcode} (straight : op.isBracket = false)
    (here : code.bytes[start]? = some op.byte)
    (decoded : Opcode.decode? op.byte code.extensions = some op) :
    Realizes transport code start (start + 1) (Leaf transport op) where
  sound := by
    rintro m _ plain rfl
    have kept := plain.perform transport straight 1
    refine ⟨kept.noted op, ?_⟩
    have stepped := plain.step_leaf transport here decoded straight
    cases result : (m.perform transport op 1).2 with
    | none =>
        rw [result] at stepped
        exact .done (.single stepped)
    | some stop =>
        rw [result] at stepped
        have failed := perform_stop_ne transport m op 1
        rw [result] at failed
        exact .aborted (.here _) stepped
          ⟨fun same => failed.1 (congrArg some same), fun same => failed.2 (congrArg some same)⟩
  complete := by
    intro m budget plain
    cases budget with
    | zero => exact .inr ⟨_, .here _⟩
    | succ budget => exact .inl ⟨_, rfl, Nat.le_add_left 1 budget⟩

theorem sequence {middle : Nat} {First Second : Machine σ → Ending σ → Prop}
    (first : Realizes transport code start middle First)
    (second : Realizes transport code middle finish Second) :
    Realizes transport code start finish (Sequence First Second) where
  sound := by
    intro m ending plain meaning
    cases meaning with
    | aborted one =>
        obtain ⟨kept, reaches⟩ := first.sound m _ plain one
        cases reaches with
        | aborted steps stops failed => exact ⟨kept, .aborted steps stops failed⟩
    | both one two =>
        obtain ⟨kept, reaches⟩ := first.sound m _ plain one
        obtain ⟨kept', reaches'⟩ := second.sound _ _ kept two
        cases reaches with
        | done steps => exact ⟨kept', reaches'.behind steps⟩
  complete := by
    intro m budget plain
    rcases first.complete m budget plain with ⟨⟨middle, stop, cost⟩, one, le⟩ | spent
    · cases stop with
      | some stop => exact .inl ⟨_, .aborted one, le⟩
      | none =>
          obtain ⟨kept, reaches⟩ := first.sound m _ plain one
          cases reaches with
          | done steps =>
              obtain ⟨rest, rfl⟩ := Nat.exists_eq_add_of_le le
              rcases second.complete middle rest kept with
                ⟨⟨last, stop, more⟩, two, le'⟩ | ⟨last, steps'⟩
              · exact .inl ⟨_, .both one two, Nat.add_le_add_left le' _⟩
              · exact .inr ⟨last, steps.trans steps'⟩
    · exact .inr spent

section Looping

variable {index : Nat} {body rest : Block} {Body : Machine σ → Ending σ → Prop}

theorem rounds (stands : Stands code.bytes index (Block.loop body rest).bytes)
    (decoded : Opcode.decode? Opcode.loopEnd.byte code.extensions = some .loopEnd)
    (inner : Realizes transport code (index + 1) (index + 1 + body.size) Body) :
    Realizes transport code (index + 1) (index + body.size + 2) (Rounds Body) where
  sound := by
    intro m ending plain meaning
    induction meaning with
    | aborted one =>
        obtain ⟨kept, reaches⟩ := inner.sound _ _ plain one
        cases reaches with
        | aborted steps stops failed => exact ⟨kept, .aborted steps stops failed⟩
    | last one zero =>
        obtain ⟨kept, reaches⟩ := inner.sound _ _ plain one
        have tested := kept.step_loopEnd transport stands decoded
        rw [if_pos zero] at tested
        cases reaches with
        | done steps => exact ⟨kept.noted _, .done (steps.trans (.single tested))⟩
    | again one other _ ih =>
        obtain ⟨kept, reaches⟩ := inner.sound _ _ plain one
        have tested := kept.step_loopEnd transport stands decoded
        rw [if_neg other] at tested
        obtain ⟨kept', reaches'⟩ := ih (kept.noted _)
        cases reaches with
        | done steps => exact ⟨kept', reaches'.behind (steps.trans (.single tested))⟩
  complete := by
    intro m budget plain
    -- Every round but an aborted one costs something, so the budget decreases.
    induction budget using Nat.strongRecOn generalizing m with
    | ind budget ih =>
        rcases inner.complete m budget plain with ⟨⟨middle, stop, cost⟩, one, le⟩ | spent
        · cases stop with
          | some stop => exact .inl ⟨_, .aborted one, le⟩
          | none =>
              obtain ⟨kept, reaches⟩ := inner.sound m _ plain one
              have tested := kept.step_loopEnd transport stands decoded
              cases reaches with
              | done steps =>
                  rcases Nat.exists_eq_add_of_le le with ⟨_ | remaining, rfl⟩
                  · exact .inr ⟨_, steps⟩
                  · by_cases zero : middle.tape.cell = 0
                    · exact .inl ⟨_, .last one zero, by simp only; omega⟩
                    · rw [if_neg zero] at tested
                      rcases ih remaining (by simp only; omega) _ (kept.noted _) with
                        ⟨⟨last, stop, more⟩, others, le'⟩ | ⟨last, steps'⟩
                      · exact .inl ⟨_, .again one zero others, by simp only at le' ⊢; omega⟩
                      · have all := (steps.trans (.single tested)).trans steps'
                        rw [show cost + 1 + remaining = cost + (remaining + 1) by omega] at all
                        exact .inr ⟨last, all⟩
        · exact .inr spent

theorem loop (stands : Stands code.bytes index (Block.loop body rest).bytes)
    (opens : Opcode.decode? Opcode.loopStart.byte code.extensions = some .loopStart)
    (closes : Opcode.decode? Opcode.loopEnd.byte code.extensions = some .loopEnd)
    (inner : Realizes transport code (index + 1) (index + 1 + body.size) Body) :
    Realizes transport code index (index + body.size + 2) (Loop Body) where
  sound := by
    intro m ending plain meaning
    have entry := plain.step_loopStart transport stands opens
    cases meaning with
    | skipped zero =>
        rw [if_pos zero] at entry
        exact ⟨plain.noted _, .done (.single entry)⟩
    | entered other repeated =>
        rw [if_neg other] at entry
        obtain ⟨kept, reaches⟩ := (rounds stands closes inner).sound _ _ (plain.noted _) repeated
        exact ⟨kept, reaches.behind (.single entry)⟩
  complete := by
    intro m budget plain
    have entry := plain.step_loopStart transport stands opens
    cases budget with
    | zero => exact .inr ⟨_, .here _⟩
    | succ budget =>
        by_cases zero : m.tape.cell = 0
        · exact .inl ⟨_, .skipped zero, Nat.le_add_left 1 budget⟩
        · rw [if_neg zero] at entry
          rcases (rounds stands closes inner).complete _ budget (plain.noted .loopStart) with
            ⟨⟨last, stop, cost⟩, repeated, le⟩ | ⟨last, steps⟩
          · exact .inl ⟨_, .entered zero repeated, by simp only at le ⊢; omega⟩
          · exact .inr ⟨last, .step entry steps⟩

end Looping

end Realizes

end Machine

end TapeNet
