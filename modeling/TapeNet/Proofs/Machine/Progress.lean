import TapeNet.Proofs.Machine.Budget
import TapeNet.Proofs.Machine.Effect
import TapeNet.Proofs.Machine.Program

/-!
# Progress

Every step leads on in the code, also one that fails, unless it finds the end or
repeats a loop.  What is left of the code therefore bounds the number of steps
up to the next one of these two, and the number of all steps of a run if the
code has no end of a loop.
-/

namespace TapeNet

/-- A jump to the right leads on, or stays where it is. -/
theorem Code.WellFormed.le_jumpForward {code : Code} (inside : code.WellFormed)
    (closing : UInt8) : code.pc ≤ (code.jumpForward closing).2.pc := by
  unfold Code.jumpForward
  split
  · exact Nat.le_refl _
  · split
    · next found =>
        obtain ⟨last, rfl, closes⟩ := closeAfter?_eq_some_iff.mp found
        exact Nat.le_succ_of_le closes.ahead
    · exact inside.pc_le_size

namespace Machine

variable {σ : Type}

/-- The next instruction ends a round of a loop, and another round follows. -/
structure Repeats (m : Machine σ) : Prop where
  next : m.IsNext .loopEnd
  cell_ne : m.tape.cell ≠ 0

variable {m : Machine σ}

/-- An opcode that does not repeat a loop leads on. -/
theorem WellFormed.lt_landing (inside : m.WellFormed) {op : Opcode} (next : m.IsNext op)
    (onward : ¬ m.Repeats) : m.code.pc < m.landing op := by
  cases op with
  | loopStart =>
      unfold landing
      dsimp only
      split
      · exact (popped_wellFormed inside next).le_jumpForward _
      · exact Nat.lt_succ_self _
  | loopEnd =>
      unfold landing
      dsimp only
      split
      · exact Nat.lt_succ_self _
      · next further => exact absurd ⟨next, further⟩ onward
  | _ => exact Nat.lt_succ_self _

section

variable (transport : Transport σ)

/-- A step that neither finds the end nor repeats a loop leads on, whatever it answers. -/
theorem WellFormed.pc_lt (inside : m.WellFormed) (goes : (m.step transport).2 ≠ some .finished)
    (onward : ¬ m.Repeats) : m.code.pc < (m.step transport).1.code.pc := by
  have effect := inside.effect transport
  generalize m.step transport = result at goes effect ⊢
  cases effect with
  | ended => exact absurd rfl goes
  | @row op _ count _ _ =>
      have least := (Tape.executed_bounds inside.tape op count).1
      exact Nat.lt_add_of_pos_right least
  | alone _ next =>
      rw [alone_code]
      exact inside.lt_landing next onward

theorem bytes_step (m : Machine σ) : (m.step transport).1.code.bytes = m.code.bytes := by
  have same := congrArg Code.bytes (reset_step transport m)
  exact same

theorem bytes_run (m : Machine σ) (budget : Nat) :
    (m.run transport budget).1.code.bytes = m.code.bytes := by
  have same := congrArg Code.bytes (reset_run transport m budget)
  exact same

/-- The machine after so many steps, whatever they answer. -/
def stepped : Nat → Machine σ → Machine σ
  | 0, m => m
  | count + 1, m => stepped count (m.step transport).1

/--
Of as many steps as there are instructions left, and one more, one finds the
end or repeats a loop.
-/
theorem WellFormed.returns (inside : m.WellFormed) :
    ∃ count ≤ m.code.size - m.code.pc,
      ((stepped transport count m).step transport).2 = some .finished ∨
        (stepped transport count m).Repeats := by
  -- By induction on what is left of the code, which every other step makes shorter.
  induction ahead : m.code.size - m.code.pc using Nat.strongRecOn generalizing m with
  | ind left ih =>
      by_cases finished : (m.step transport).2 = some .finished
      · exact ⟨0, Nat.zero_le _, .inl finished⟩
      by_cases back : m.Repeats
      · exact ⟨0, Nat.zero_le _, .inr back⟩
      have kept := step_wellFormed transport inside
      have further := inside.pc_lt transport finished back
      have within := kept.code.pc_le_size
      have size : (m.step transport).1.code.size = m.code.size :=
        congrArg Array.size (bytes_step transport m)
      have less : (m.step transport).1.code.size - (m.step transport).1.code.pc < left := by
        omega
      obtain ⟨count, few, returns⟩ := ih _ less kept rfl
      exact ⟨count + 1, Nat.lt_of_le_of_lt few less, returns⟩

/-- One machine is led on to another, in the same code, at least as far as steps are counted. -/
structure Led (first last : Machine σ) : Prop where
  bytes : last.code.bytes = first.code.bytes
  steps_le : last.report.steps + first.code.pc ≤ first.report.steps + last.code.pc

theorem Led.trans {middle last : Machine σ} (before : m.Led middle) (after : middle.Led last) :
    m.Led last := by
  have first := before.steps_le
  have second := after.steps_le
  exact ⟨after.bytes.trans before.bytes, by omega⟩

/-- Without an end of a loop, every step that counts leads on. -/
theorem WellFormed.step_led (inside : m.WellFormed)
    (straight : Opcode.loopEnd.byte ∉ m.code.bytes) : m.Led (m.step transport).1 := by
  have onward : ¬ m.Repeats := fun back => straight (Array.mem_of_getElem? back.next)
  refine ⟨bytes_step transport m, ?_⟩
  by_cases finished : (m.step transport).2 = some .finished
  · rw [inside.step_of_finished transport finished]
  · have further := inside.pc_lt transport finished onward
    rw [inside.step_steps transport finished]
    omega

theorem WellFormed.run_led (inside : m.WellFormed)
    (straight : Opcode.loopEnd.byte ∉ m.code.bytes) (budget : Nat) :
    m.Led (m.run transport budget).1 := by
  have keeps {last : Machine σ} (inside : last.WellFormed) (led : m.Led last) :
      m.Led (last.step transport).1 :=
    led.trans (inside.step_led transport (led.bytes ▸ straight))
  exact inside.run_keeps transport keeps ⟨rfl, Nat.le_refl _⟩ budget

/-- Only a loop that is repeated can prolong a run. -/
structure Progresses (m : Machine σ) : Prop where
  advances : (m.step transport).2 ≠ some .finished → ¬ m.Repeats →
    m.code.pc < (m.step transport).1.code.pc
  returns : ∃ count ≤ m.code.size - m.code.pc,
    ((stepped transport count m).step transport).2 = some .finished ∨
      (stepped transport count m).Repeats
  /-- Without an end of a loop, no run counts more steps than there are instructions left. -/
  steps_le : Opcode.loopEnd.byte ∉ m.code.bytes → ∀ budget,
    (m.run transport budget).1.report.steps ≤ m.report.steps + (m.code.size - m.code.pc)
  /-- Without an end of a loop, a larger budget than that is not spent. -/
  unspent : Opcode.loopEnd.byte ∉ m.code.bytes → ∀ budget > m.code.size - m.code.pc,
    (m.run transport budget).2 ≠ .budgetSpent

theorem WellFormed.progresses (inside : m.WellFormed) : Progresses transport m := by
  have steps_le (straight : Opcode.loopEnd.byte ∉ m.code.bytes) (budget : Nat) :
      (m.run transport budget).1.report.steps ≤
        m.report.steps + (m.code.size - m.code.pc) := by
    have led := inside.run_led transport straight budget
    have within := (run_wellFormed transport inside budget).code.pc_le_size
    have size : (m.run transport budget).1.code.size = m.code.size :=
      congrArg Array.size led.bytes
    have far := led.steps_le
    omega
  refine ⟨inside.pc_lt transport, inside.returns transport, steps_le, ?_⟩
  intro straight budget more spent
  have few := steps_le straight budget
  have steps := proceeds_of_spent spent
  rw [steps.report_steps inside] at few
  omega

/-- At any time of a machine's life, only a loop that is repeated can prolong a run. -/
theorem live_progresses (text : List UInt8) (options : Options) (world : σ) (source : Source)
    (sink : Sink) (operations : List Operation) :
    Progresses transport
      (live transport operations (about text options world source sink)) := by
  have inside := about_wellFormed text options world source sink
  exact (live_wellFormed transport inside operations).progresses transport

end

end Machine

end TapeNet
