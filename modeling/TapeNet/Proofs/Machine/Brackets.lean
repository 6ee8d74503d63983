import TapeNet.Proofs.Block.Realization
import TapeNet.Proofs.Code.Pairing

/-!
# Brackets in a run

Where a bracket leads when it is executed, for any code, balanced or not, and
any memory.  One pass over the code with a stack, made beforehand, tells what
the searches of the machine find at every step.
-/

namespace TapeNet

open Opcode (loopStart loopEnd)

namespace Opcode

/-- A bracket is an opcode under any extensions. -/
theorem decode?_bracket {op : Opcode} (bracket : op.isBracket = true) (enabled : Extensions) :
    decode? op.byte enabled = some op := by
  refine decode?_eq_some_iff.mpr ⟨rfl, ?_⟩
  cases op with
  | loopStart | loopEnd => simp [needs, Extensions.contains, Extensions.empty]
  | _ => cases bracket

theorem isFoldable_bracket {op : Opcode} (bracket : op.isBracket = true) : op.isFoldable = false := by
  cases op with
  | loopStart | loopEnd => rfl
  | _ => cases bracket

end Opcode

namespace Pairing

variable {code : Code} {first last : Nat}

/-- From an opening bracket the jump ends behind the closing one that it is paired with. -/
theorem jumpForward_of_mem_pairs (paired : (first, last) ∈ (ofBytes code.bytes).pairs) :
    ({ code with pc := first + 1 } : Code).jumpForward loopEnd.byte =
      (true, { code with pc := last + 1 }) := by
  obtain ⟨here, closes⟩ := mem_pairs_iff.mp paired
  exact (Code.jumpForward_eq_true_iff { code with pc := first + 1 } here
    (Nat.succ_ne_zero first)).mpr ⟨last, rfl, closes⟩

theorem jumpForward_of_mem_pending (left : first ∈ (ofBytes code.bytes).pending) :
    ({ code with pc := first + 1 } : Code).jumpForward loopEnd.byte =
      (false, { code with pc := code.size }) := by
  obtain ⟨here, unpaired⟩ := mem_pending_iff.mp left
  refine (Code.jumpForward_eq_false_iff { code with pc := first + 1 } here
    (Nat.succ_ne_zero first)).mpr ?_
  rintro ⟨last, closes⟩
  exact unpaired last (mem_pairs_iff.mpr ⟨here, closes⟩)

/-- From a closing bracket the jump ends behind the opening one that it is paired with. -/
theorem jumpBackward_of_mem_pairs (paired : (first, last) ∈ (ofBytes code.bytes).pairs) :
    ({ code with pc := last + 1 } : Code).jumpBackward loopStart.byte =
      (true, { code with pc := first + 1 }) := by
  have here := (mem_pairs_iff.mp paired).2.closes
  exact (Code.jumpBackward_eq_true_iff { code with pc := last + 1 } here).mpr
    ⟨first, rfl, (mem_pairs_iff_opensAt here).mp paired⟩

theorem jumpBackward_of_mem_stray (strays : last ∈ (ofBytes code.bytes).stray)
    (positive : 1 ≤ last) :
    ({ code with pc := last + 1 } : Code).jumpBackward loopStart.byte =
      (false, { code with pc := 0 }) := by
  obtain ⟨here, unpaired⟩ := mem_stray_ofBytes_iff.mp strays
  have inner : ¬ last + 1 ≤ 1 := by omega
  refine (Code.jumpBackward_eq_false_iff { code with pc := last + 1 } here inner).mpr ?_
  rintro ⟨first, opens⟩
  exact unpaired first ((mem_pairs_iff_opensAt here).mpr opens)

end Pairing

namespace Machine

variable {σ : Type} (transport : Transport σ) {m : Machine σ}

/-- A bracket that is the next instruction is executed once, with or without folding. -/
theorem step_of_bracket {op : Opcode} (bracket : op.isBracket = true)
    (here : m.code.bytes[m.code.pc]? = some op.byte) :
    m.step transport =
      (((m.facing (m.code.pc + 1)).perform transport op 1).1.noted op,
        ((m.facing (m.code.pc + 1)).perform transport op 1).2) := by
  have single := Opcode.isFoldable_bracket bracket
  have alone : (m.options.fold && op.isFoldable) = false := by rw [single, Bool.and_false]
  have once := execute_of_inside transport
    (perform_ne_outOfBounds transport (m.facing (m.code.pc + 1)) single 1)
  rw [← perform_report transport (m.facing (m.code.pc + 1)) op 1] at once
  exact (step_of_single transport here (Opcode.decode?_bracket bracket _) alone).trans once

/-- The beginning of a loop goes on where the jump to the right ends, if the cell is zero. -/
theorem step_of_loopStart (here : m.code.bytes[m.code.pc]? = some loopStart.byte) {target : Nat}
    (jumps : m.tape.cell = 0 →
      ((m.facing (m.code.pc + 1)).code.jumpForward loopEnd.byte).2 = (m.facing target).code)
    (enters : m.tape.cell ≠ 0 → target = m.code.pc + 1) :
    m.step transport = ((m.noted loopStart).facing target, none) := by
  rw [step_of_bracket transport rfl here]
  by_cases zero : m.tape.cell = 0
  · have taken : (m.facing (m.code.pc + 1)).enterLoop = (m.facing target, none) := by
      rw [enterLoop, if_pos (show (m.facing (m.code.pc + 1)).tape.cell = 0 from zero), jumps zero]
      rfl
    simp only [perform, taken]
    rfl
  · obtain rfl := enters zero
    have ignored : (m.facing (m.code.pc + 1)).enterLoop = (m.facing (m.code.pc + 1), none) :=
      if_neg zero
    simp only [perform, ignored]
    rfl

/-- The end of a loop goes on where the jump to the left ends, unless the cell is zero. -/
theorem step_of_loopEnd (here : m.code.bytes[m.code.pc]? = some loopEnd.byte) {target : Nat}
    (jumps : m.tape.cell ≠ 0 →
      ((m.facing (m.code.pc + 1)).code.jumpBackward loopStart.byte).2 = (m.facing target).code)
    (leaves : m.tape.cell = 0 → target = m.code.pc + 1) :
    m.step transport = ((m.noted loopEnd).facing target, none) := by
  rw [step_of_bracket transport rfl here]
  by_cases zero : m.tape.cell = 0
  · obtain rfl := leaves zero
    have ignored : (m.facing (m.code.pc + 1)).repeatLoop = (m.facing (m.code.pc + 1), none) :=
      if_pos zero
    simp only [perform, ignored]
    rfl
  · have taken : (m.facing (m.code.pc + 1)).repeatLoop = (m.facing target, none) := by
      rw [repeatLoop, if_neg (show ¬ (m.facing (m.code.pc + 1)).tape.cell = 0 from zero),
        jumps zero]
      rfl
    simp only [perform, taken]
    rfl

/-- Where brackets lead, in terms of the pairing of the code that a machine has. -/
structure Paired (m : Machine σ) : Prop where
  skips : m.code.bytes[m.code.pc]? = some loopStart.byte → m.tape.cell = 0 →
    ∀ last, (m.code.pc, last) ∈ (Pairing.ofBytes m.code.bytes).pairs →
      m.step transport = ((m.noted loopStart).facing (last + 1), none)
  /-- With a zero cell, a beginning that is left over leads behind the code. -/
  leaves : m.code.bytes[m.code.pc]? = some loopStart.byte → m.tape.cell = 0 →
    m.code.pc ∈ (Pairing.ofBytes m.code.bytes).pending →
      m.step transport = ((m.noted loopStart).facing m.code.size, none)
  enters : m.code.bytes[m.code.pc]? = some loopStart.byte → m.tape.cell ≠ 0 →
    m.step transport = ((m.noted loopStart).facing (m.code.pc + 1), none)
  repeats : m.code.bytes[m.code.pc]? = some loopEnd.byte → m.tape.cell ≠ 0 →
    ∀ first, (first, m.code.pc) ∈ (Pairing.ofBytes m.code.bytes).pairs →
      m.step transport = ((m.noted loopEnd).facing (first + 1), none)
  /-- With a cell that is not zero, a stray end leads to the first instruction. -/
  restarts : m.code.bytes[m.code.pc]? = some loopEnd.byte → m.tape.cell ≠ 0 →
    m.code.pc ∈ (Pairing.ofBytes m.code.bytes).stray → 1 ≤ m.code.pc →
      m.step transport = ((m.noted loopEnd).facing 0, none)
  /-- The first instruction has nothing to jump over, so that it is passed. -/
  stays : m.code.bytes[m.code.pc]? = some loopEnd.byte → m.tape.cell ≠ 0 → m.code.pc = 0 →
    m.step transport = ((m.noted loopEnd).facing 1, none)
  passes : m.code.bytes[m.code.pc]? = some loopEnd.byte → m.tape.cell = 0 →
    m.step transport = ((m.noted loopEnd).facing (m.code.pc + 1), none)

/--
On any code, the machine goes where one pass with a stack over the code says;
brackets are paired at most once, and pairs do not cross.
-/
theorem step_paired (m : Machine σ) :
    m.Paired transport ∧ (Pairing.ofBytes m.code.bytes).Sound m.code.bytes := by
  refine ⟨?_, Pairing.ofBytes_sound m.code.bytes⟩
  constructor
  case skips =>
    intro here zero last paired
    have jump := congrArg Prod.snd (Pairing.jumpForward_of_mem_pairs paired)
    exact step_of_loopStart transport here (fun _ => jump) (fun other => absurd zero other)
  case leaves =>
    intro here zero left
    have jump := congrArg Prod.snd (Pairing.jumpForward_of_mem_pending left)
    exact step_of_loopStart transport here (fun _ => jump) (fun other => absurd zero other)
  case enters =>
    intro here other
    exact step_of_loopStart transport here (fun zero => absurd zero other) (fun _ => rfl)
  case repeats =>
    intro here other first paired
    have jump := congrArg Prod.snd (Pairing.jumpBackward_of_mem_pairs paired)
    exact step_of_loopEnd transport here (fun _ => jump) (fun zero => absurd zero other)
  case restarts =>
    intro here other strays positive
    have jump := congrArg Prod.snd (Pairing.jumpBackward_of_mem_stray strays positive)
    exact step_of_loopEnd transport here (fun _ => jump) (fun zero => absurd zero other)
  case stays =>
    intro here other first
    have early : (m.facing (m.code.pc + 1)).code.pc ≤ 1 := by
      change m.code.pc + 1 ≤ 1
      omega
    have jump : ((m.facing (m.code.pc + 1)).code.jumpBackward loopStart.byte).2 =
        (m.facing 1).code := by
      rw [Code.jumpBackward, if_pos early, first]
    exact step_of_loopEnd transport here (fun _ => jump) (fun zero => absurd zero other)
  case passes =>
    intro here zero
    exact step_of_loopEnd transport here (fun other => absurd zero other) (fun _ => rfl)

end Machine

end TapeNet
