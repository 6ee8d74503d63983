import TapeNet.Machine
import TapeNet.Proofs.Code.Pop
import TapeNet.Proofs.Tape.Repetition

/-!
# Steps

What one step can do, said once.  It finds the end, or a byte that is no
opcode, or it executes an opcode.  An opcode neither reads nor changes the
options and the report, it never stops for want of instructions or budget, and
it keeps the tape well formed.
-/

namespace TapeNet

namespace Machine

variable {σ : Type} (transport : Transport σ)

/-- An opcode neither reads nor changes the options and the report. -/
theorem perform_with (m : Machine σ) (options : Options) (report : Report) (op : Opcode)
    (count : Nat) :
    ({ m with options, report } : Machine σ).perform transport op count =
      ({ (m.perform transport op count).1 with options, report },
        (m.perform transport op count).2) := by
  cases op with
  | input =>
      simp only [perform, readIn]
      split <;> rfl
  | loopStart =>
      simp only [perform, enterLoop]
      split <;> rfl
  | loopEnd =>
      simp only [perform, repeatLoop]
      split <;> rfl
  | receive =>
      simp only [perform, receiveIn]
      split <;> rfl
  | flush =>
      simp only [perform, sendOut]
      split <;> rfl
  | _ => rfl

theorem perform_options (m : Machine σ) (op : Opcode) (count : Nat) :
    (m.perform transport op count).1.options = m.options :=
  congrArg (fun result => result.1.options)
    (perform_with transport m m.options m.report op count)

theorem perform_report (m : Machine σ) (op : Opcode) (count : Nat) :
    (m.perform transport op count).1.report = m.report :=
  congrArg (fun result => result.1.report)
    (perform_with transport m m.options m.report op count)

/-- Every opcode keeps the tape well formed. -/
theorem perform_inside {m : Machine σ} (inside : m.tape.WellFormed) (op : Opcode) (count : Nat) :
    (m.perform transport op count).1.tape.WellFormed := by
  cases op with
  | moveRight => exact inside.advance count
  | moveLeft => exact inside.retreat count
  | increment | decrement => exact inside.modify _
  | input =>
      simp only [perform, readIn]
      split
      · exact inside.modify _
      · exact inside
  | loopStart =>
      simp only [perform, enterLoop]
      split <;> exact inside
  | loopEnd =>
      simp only [perform, repeatLoop]
      split <;> exact inside
  | receive =>
      simp only [perform, receiveIn]
      split
      · exact inside.modify _
      · exact inside
  | flush =>
      simp only [perform, sendOut]
      split
      · exact inside.modify _
      · exact inside
      · exact inside
  | _ => exact inside

/--
What can stop an opcode: the edge of the tape, if it is one that may be folded,
and otherwise only the source, the sink or the network.
-/
theorem perform_stop_cases (m : Machine σ) (op : Opcode) (count : Nat) :
    (m.perform transport op count).2 = none ∨
      ((m.perform transport op count).2 = some .outOfBounds ∧ op.isFoldable = true) ∨
      ∃ stop ∈ [Stop.noInput, .noOutput, .unanswered],
        (m.perform transport op count).2 = some stop := by
  cases op with
  | moveRight | moveLeft =>
      simp only [perform, moved]
      split
      · exact .inl rfl
      · exact .inr (.inl ⟨rfl, rfl⟩)
  | output =>
      simp only [perform, writeOut]
      split
      · exact .inl rfl
      · exact .inr (.inr ⟨.noOutput, by simp, rfl⟩)
  | input =>
      simp only [perform, readIn]
      split
      · exact .inl rfl
      · exact .inr (.inr ⟨.noInput, by simp, rfl⟩)
  | loopStart =>
      simp only [perform, enterLoop]
      split <;> exact .inl rfl
  | loopEnd =>
      simp only [perform, repeatLoop]
      split <;> exact .inl rfl
  | receive =>
      simp only [perform, receiveIn]
      split
      · exact .inl rfl
      · exact .inr (.inr ⟨.unanswered, by simp, rfl⟩)
  | flush =>
      simp only [perform, sendOut]
      split
      · exact .inl rfl
      · exact .inl rfl
      · exact .inr (.inr ⟨.unanswered, by simp, rfl⟩)
  | _ => exact .inl rfl

/-- No opcode stops for want of instructions or of budget. -/
theorem perform_stop_ne (m : Machine σ) (op : Opcode) (count : Nat) :
    (m.perform transport op count).2 ≠ some .finished ∧
      (m.perform transport op count).2 ≠ some .budgetSpent := by
  rcases perform_stop_cases transport m op count with goes | ⟨edge, _⟩ | ⟨stop, known, stops⟩
  · rw [goes]
    exact ⟨(Option.some_ne_none _).symm, (Option.some_ne_none _).symm⟩
  · rw [edge]
    constructor <;> simp
  · rw [stops]
    constructor <;> rintro ⟨⟩ <;> simp at known

/-- Only an opcode that may be folded can leave the tape. -/
theorem perform_ne_outOfBounds (m : Machine σ) {op : Opcode} (single : op.isFoldable = false)
    (count : Nat) : (m.perform transport op count).2 ≠ some .outOfBounds := by
  rcases perform_stop_cases transport m op count with goes | ⟨_, foldable⟩ | ⟨stop, known, stops⟩
  · rw [goes]
    exact (Option.some_ne_none _).symm
  · rw [single] at foldable
    cases foldable
  · rw [stops]
    rintro ⟨⟩
    simp at known

/-- Unless it leaves the tape, an opcode is accounted for as often as it was to be executed. -/
theorem execute_of_inside {m : Machine σ} {op : Opcode} {count : Nat}
    (stays : (m.perform transport op count).2 ≠ some .outOfBounds) :
    m.execute transport op count =
      ({ (m.perform transport op count).1 with report := m.report.record op count },
        (m.perform transport op count).2) := by
  unfold execute
  dsimp only
  rw [if_neg stays, perform_report transport]

/-- What an opcode that may be folded does to a machine, it does to the tape. -/
theorem perform_foldable (m : Machine σ) {op : Opcode} (foldable : op.isFoldable = true)
    (count : Nat) :
    m.perform transport op count =
      ({ m with tape := (m.tape.repeated op count).1 },
        if (m.tape.repeated op count).2 then none else some .outOfBounds) := by
  cases op with
  | moveRight | moveLeft | increment | decrement => rfl
  | _ => cases foldable

/-- Executing an opcode that may be folded: repetitions behind one that leaves the tape are given back. -/
theorem execute_foldable (m : Machine σ) {op : Opcode} (foldable : op.isFoldable = true)
    (count : Nat) :
    m.execute transport op count =
      ({ m with
          code := m.code.rewind (count - m.tape.executed op count)
          tape := (m.tape.repeated op count).1
          report := m.report.record op (m.tape.executed op count) },
        if (m.tape.repeated op count).2 then none else some .outOfBounds) := by
  unfold execute
  rw [perform_foldable transport m foldable]
  cases fits : (m.tape.repeated op count).2 with
  | true => simp [Tape.executed, fits, Code.rewind]
  | false => simp [Tape.executed, fits, distance]

/-- A single execution is accounted for as such, also if it leaves the tape. -/
theorem execute_one {m : Machine σ} (inside : m.tape.WellFormed) (op : Opcode) :
    m.execute transport op 1 =
      ({ (m.perform transport op 1).1 with report := m.report.record op 1 },
        (m.perform transport op 1).2) := by
  cases foldable : op.isFoldable with
  | false => exact execute_of_inside transport (perform_ne_outOfBounds transport m foldable 1)
  | true =>
      rw [execute_foldable transport m foldable, perform_foldable transport m foldable,
        Tape.executed_one inside]
      rfl

/-- An opcode is accounted for as often as it was executed. -/
theorem execute_report (m : Machine σ) (op : Opcode) (count : Nat) :
    (m.execute transport op count).1.report = m.report.record op (m.tape.executed op count) := by
  cases foldable : op.isFoldable with
  | true => rw [execute_foldable transport m foldable]
  | false =>
      rw [execute_of_inside transport (perform_ne_outOfBounds transport m foldable count),
        Tape.executed_of_not_foldable foldable]

theorem execute_stop (m : Machine σ) (op : Opcode) (count : Nat) :
    (m.execute transport op count).2 = (m.perform transport op count).2 := by
  unfold execute
  dsimp only
  split <;> rfl

/-- The code of a machine behind the instruction that it executes next. -/
def popped (m : Machine σ) : Code :=
  { m.code with pc := m.code.pc + 1 }

/-- What is popped for an opcode is at least the opcode itself. -/
theorem batch_succ (m : Machine σ) {op : Opcode} (here : m.code.bytes[m.code.pc]? = some op.byte) :
    ∃ count, (m.batch op m.popped).1 = count + 1 ∧
      ((m.options.fold && op.isFoldable) = false → count = 0) := by
  unfold batch
  split
  · next folds =>
      obtain ⟨count, popped, _⟩ := Code.popRepeats_after_pop here
      refine ⟨count, ?_, ?_⟩
      · rw [Machine.popped, popped]
      · intro off
        rw [folds] at off
        cases off
  · exact ⟨0, rfl, fun _ => rfl⟩

theorem step_of_end {m : Machine σ} (ended : m.code.bytes[m.code.pc]? = none) :
    m.step transport = (m, some .finished) := by
  have nothing : m.code.pop = (none, m.code) := Code.pop_eq_none_iff.mpr ended
  simp only [step, nothing]

theorem step_of_unknown {m : Machine σ} {byte : UInt8}
    (here : m.code.bytes[m.code.pc]? = some byte)
    (unknown : Opcode.decode? byte m.code.extensions = none) :
    m.step transport = ({ m with code := m.popped }, some (.unknownByte byte)) := by
  have next : m.code.pop = (some byte, m.popped) := Code.pop_eq_some_iff.mpr ⟨here, rfl⟩
  simp only [step, next, popped, unknown]

theorem step_of_opcode {m : Machine σ} {op : Opcode}
    (here : m.code.bytes[m.code.pc]? = some op.byte)
    (decoded : Opcode.decode? op.byte m.code.extensions = some op) :
    m.step transport =
      ({ m with code := (m.batch op m.popped).2 } : Machine σ).execute transport op
        (m.batch op m.popped).1 := by
  have next : m.code.pop = (some op.byte, m.popped) := Code.pop_eq_some_iff.mpr ⟨here, rfl⟩
  simp only [step, next, popped, decoded]

/-- A machine that does not fold, or that meets an opcode that may not be folded, executes it once. -/
theorem step_of_single {m : Machine σ} {op : Opcode}
    (here : m.code.bytes[m.code.pc]? = some op.byte)
    (decoded : Opcode.decode? op.byte m.code.extensions = some op)
    (single : (m.options.fold && op.isFoldable) = false) :
    m.step transport = ({ m with code := m.popped } : Machine σ).execute transport op 1 := by
  have alone : m.batch op m.popped = (1, m.popped) := by
    simp only [batch, single, Bool.false_eq_true, if_false]
  rw [step_of_opcode transport here decoded, alone]

/-- What a step can do: find the end, find a byte that is no opcode, or execute an opcode. -/
theorem step_cases (m : Machine σ) :
    (m.code.bytes[m.code.pc]? = none ∧ m.step transport = (m, some .finished)) ∨
      (∃ byte, m.code.bytes[m.code.pc]? = some byte ∧
        Opcode.decode? byte m.code.extensions = none ∧
        m.step transport = ({ m with code := m.popped }, some (.unknownByte byte))) ∨
      ∃ op, m.code.bytes[m.code.pc]? = some op.byte ∧
        Opcode.decode? op.byte m.code.extensions = some op ∧
        m.step transport =
          ({ m with code := (m.batch op m.popped).2 } : Machine σ).execute transport op
            (m.batch op m.popped).1 := by
  cases here : m.code.bytes[m.code.pc]? with
  | none => exact .inl ⟨rfl, step_of_end transport here⟩
  | some byte =>
      cases decoded : Opcode.decode? byte m.code.extensions with
      | none => exact .inr (.inl ⟨byte, rfl, decoded, step_of_unknown transport here decoded⟩)
      | some op =>
          obtain ⟨rfl, _⟩ := Opcode.decode?_eq_some_iff.mp decoded
          exact .inr (.inr ⟨op, rfl, decoded, step_of_opcode transport here decoded⟩)

theorem step_ne_budgetSpent (m : Machine σ) : (m.step transport).2 ≠ some .budgetSpent := by
  rcases step_cases transport m with ⟨_, finished⟩ | ⟨byte, _, _, unknown⟩ | ⟨op, _, _, executed⟩
  · simp [finished]
  · simp [unknown]
  · rw [executed, execute_stop transport]
    exact (perform_stop_ne transport _ op _).2

theorem execute_options (m : Machine σ) (op : Opcode) (count : Nat) :
    (m.execute transport op count).1.options = m.options := by
  have same := perform_options transport m op count
  unfold execute
  dsimp only
  split <;> exact same

theorem execute_inside {m : Machine σ} (inside : m.tape.WellFormed) (op : Opcode) (count : Nat) :
    (m.execute transport op count).1.tape.WellFormed := by
  have kept := perform_inside transport inside op count
  unfold execute
  dsimp only
  split <;> exact kept

theorem step_options (m : Machine σ) : (m.step transport).1.options = m.options := by
  rcases step_cases transport m with ⟨_, finished⟩ | ⟨byte, _, _, unknown⟩ | ⟨op, _, _, executed⟩
  · rw [finished]
  · rw [unknown]
  · rw [executed]
    exact execute_options transport _ op _

theorem step_inside {m : Machine σ} (inside : m.tape.WellFormed) :
    (m.step transport).1.tape.WellFormed := by
  rcases step_cases transport m with ⟨_, finished⟩ | ⟨byte, _, _, unknown⟩ | ⟨op, _, _, executed⟩
  · rw [finished]
    exact inside
  · rw [unknown]
    exact inside
  · rw [executed]
    have kept : ({ m with code := (m.batch op m.popped).2 } : Machine σ).tape.WellFormed := inside
    exact execute_inside transport kept op _

end Machine

end TapeNet
