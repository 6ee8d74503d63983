import TapeNet.Proofs.Code.Guarded
import TapeNet.Proofs.Machine.Step
import TapeNet.Proofs.Tape.Guarded

/-!
# The guarded machine

A guarded machine does what a machine does and checks each index and each
difference on the way; where a check fails, it has no result.  A well-formed
machine passes all of them, so that it and the guarded one are the same, and
every step leaves it well formed.
-/

namespace TapeNet

namespace Machine

variable {σ : Type}

/-- The program counter is inside the code or at its end, and the pointer is on the tape. -/
structure WellFormed (m : Machine σ) : Prop where
  code : m.code.WellFormed
  tape : m.tape.WellFormed

theorem WellFormed.withCode {m : Machine σ} (inside : m.WellFormed) {code : Code}
    (kept : code.WellFormed) : ({ m with code } : Machine σ).WellFormed :=
  ⟨kept, inside.tape⟩

namespace Guarded

variable (transport : Transport σ)

/-- Executes `count` repetitions of an opcode that was just popped. -/
def perform (m : Machine σ) (op : Opcode) (count : Nat) : Option (Machine σ × Option Stop) :=
  match op with
  | .moveRight => do
    let (tape, stays) ← Tape.Guarded.advance m.tape count
    some ({ m with tape }, if stays then none else some .outOfBounds)
  | .moveLeft => do
    let (tape, stays) ← Tape.Guarded.retreat m.tape count
    some ({ m with tape }, if stays then none else some .outOfBounds)
  | .increment => do
    let tape ← Tape.Guarded.modify m.tape (· + UInt8.ofNat (count % 256))
    some ({ m with tape }, none)
  | .decrement => do
    let tape ← Tape.Guarded.modify m.tape (· - UInt8.ofNat (count % 256))
    some ({ m with tape }, none)
  | .output => do
    let cell ← Tape.Guarded.cell m.tape
    let (written, sink) := m.sink.emit cell
    some ({ m with sink }, if written then none else some .noOutput)
  | .input =>
    match m.source.readByte with
    | (some byte, source) => do
      let tape ← Tape.Guarded.modify m.tape fun _ => byte
      some ({ m with tape, source }, none)
    | (none, source) => some ({ m with source }, some .noInput)
  | .loopStart => do
    let cell ← Tape.Guarded.cell m.tape
    if cell = 0 then do
      let (_, code) ← Code.Guarded.jumpForward m.code Opcode.loopEnd.byte
      some ({ m with code }, none)
    else
      some (m, none)
  | .loopEnd => do
    let cell ← Tape.Guarded.cell m.tape
    if cell = 0 then
      some (m, none)
    else do
      let (_, code) ← Code.Guarded.jumpBackward m.code Opcode.loopStart.byte
      some ({ m with code }, none)
  | .setTimeout => do
    let cell ← Tape.Guarded.cell m.tape
    some ({ m with network := m.network.setTimeout cell }, none)
  | .setPort => do
    let cell ← Tape.Guarded.cell m.tape
    let (network, world) := m.network.setPort transport cell m.world
    some ({ m with network, world }, none)
  | .receive =>
    match m.network.receive transport m.world with
    | (some byte, network, world) => do
      let tape ← Tape.Guarded.modify m.tape fun _ => byte
      some ({ m with tape, network, world }, none)
    | (none, network, world) => some ({ m with network, world }, some .unanswered)
  | .queueSend => do
    let cell ← Tape.Guarded.cell m.tape
    some ({ m with network := m.network.enqueue cell }, none)
  | .flush =>
    match m.network.push transport m.world with
    | (some true, network, world) => do
      let tape ← Tape.Guarded.modify m.tape fun _ => 0
      some ({ m with tape, network, world }, none)
    | (some false, network, world) => some ({ m with network, world }, none)
    | (none, network, world) => some ({ m with network, world }, some .unanswered)

/-- Executes an opcode and accounts for it; repetitions behind a failed move are given back. -/
def execute (m : Machine σ) (op : Opcode) (count : Nat) : Option (Machine σ × Option Stop) := do
  let pointer := m.tape.pointer
  let (m, stop) ← perform transport m op count
  if stop = some .outOfBounds then do
    let executed := distance m.tape.pointer pointer + 1
    let surplus ← difference? count executed
    some ({ m with
        code := m.code.rewind surplus
        report := m.report.record op executed },
      stop)
  else
    some ({ m with report := m.report.record op count }, stop)

/-- How often an opcode is executed, and the code behind everything that is popped for it. -/
def batch (m : Machine σ) (op : Opcode) (code : Code) : Option (Nat × Code) :=
  if m.options.fold && op.isFoldable then Code.Guarded.popRepeats code else some (1, code)

/-- Executes the next instruction. -/
def step (m : Machine σ) : Option (Machine σ × Option Stop) :=
  match m.code.pop with
  | (none, _) => some (m, some .finished)
  | (some byte, code) =>
    match Opcode.decode? byte code.extensions with
    | none => some ({ m with code }, some (.unknownByte byte))
    | some op => do
      let (count, code) ← batch m op code
      execute transport ({ m with code } : Machine σ) op count

/-- Executes up to `budget` steps. -/
def run : Nat → Machine σ → Option (Machine σ × Stop)
  | 0, m => some (m, .budgetSpent)
  | budget + 1, m => do
    match ← step transport m with
    | (m, none) => run budget m
    | (m, some stop) => some (m, stop)

end Guarded

section

variable (transport : Transport σ) {m : Machine σ}

theorem perform_wellFormed (inside : m.WellFormed) (op : Opcode) (count : Nat) :
    (m.perform transport op count).1.WellFormed := by
  refine ⟨?_, perform_inside transport inside.tape op count⟩
  cases op with
  | input =>
      simp only [perform, readIn]
      split <;> exact inside.code
  | loopStart =>
      simp only [perform, enterLoop]
      split
      · exact inside.code.jumpForward _
      · exact inside.code
  | loopEnd =>
      simp only [perform, repeatLoop]
      split
      · exact inside.code
      · exact inside.code.jumpBackward _
  | receive =>
      simp only [perform, receiveIn]
      split <;> exact inside.code
  | flush =>
      simp only [perform, sendOut]
      split <;> exact inside.code
  | _ => exact inside.code

theorem execute_wellFormed (inside : m.WellFormed) (op : Opcode) (count : Nat) :
    (m.execute transport op count).1.WellFormed := by
  have kept := perform_wellFormed transport inside op count
  unfold execute
  dsimp only
  split
  · exact ⟨kept.code.rewind _, kept.tape⟩
  · exact ⟨kept.code, kept.tape⟩

/-- The code behind the instruction that is executed next is well formed, if there is one. -/
theorem popped_wellFormed (inside : m.WellFormed) {byte : UInt8}
    (here : m.code.bytes[m.code.pc]? = some byte) : m.popped.WellFormed :=
  inside.code.moved (Array.getElem?_eq_some_iff.mp here).1

theorem batch_wellFormed (m : Machine σ) (op : Opcode) {code : Code} (inside : code.WellFormed) :
    (m.batch op code).2.WellFormed := by
  unfold batch
  split
  · exact inside.popRepeats
  · exact inside

theorem step_wellFormed (inside : m.WellFormed) : (m.step transport).1.WellFormed := by
  rcases step_cases transport m with
    ⟨_, finished⟩ | ⟨byte, here, _, unknown⟩ | ⟨op, here, _, executed⟩
  · rw [finished]
    exact inside
  · rw [unknown]
    exact ⟨popped_wellFormed inside here, inside.tape⟩
  · rw [executed]
    have popped := batch_wellFormed m op (popped_wellFormed inside here)
    exact execute_wellFormed transport (inside.withCode popped) op _

theorem run_wellFormed (inside : m.WellFormed) (budget : Nat) :
    (m.run transport budget).1.WellFormed := by
  induction budget generalizing m with
  | zero => exact inside
  | succ budget ih =>
      have after := step_wellFormed transport inside
      unfold run
      rcases stepped : m.step transport with ⟨next, _ | stop⟩
      · rw [stepped] at after
        exact ih after
      · rw [stepped] at after
        exact after

end

namespace Guarded

variable (transport : Transport σ) {m : Machine σ}

theorem perform_eq (inside : m.WellFormed) (op : Opcode) (count : Nat) :
    perform transport m op count = some (m.perform transport op count) := by
  cases op with
  | moveRight =>
      simp only [perform, Tape.Guarded.advance_eq inside.tape, Option.bind_eq_bind,
        Option.bind_some]
      rfl
  | moveLeft =>
      simp only [perform, Tape.Guarded.retreat_eq, Option.bind_eq_bind, Option.bind_some]
      rfl
  | increment | decrement =>
      simp only [perform, Tape.Guarded.modify_eq inside.tape, Option.bind_eq_bind,
        Option.bind_some]
      rfl
  | input =>
      simp only [perform, Machine.perform, readIn, Tape.Guarded.modify_eq inside.tape,
        Option.bind_eq_bind, Option.bind_some]
      rcases m.source.readByte with ⟨_ | byte, source⟩ <;> rfl
  | loopStart =>
      simp only [perform, Machine.perform, enterLoop, Tape.Guarded.cell_eq inside.tape,
        Code.Guarded.jumpForward_eq inside.code, Option.bind_eq_bind, Option.bind_some]
      split <;> rfl
  | loopEnd =>
      simp only [perform, Machine.perform, repeatLoop, Tape.Guarded.cell_eq inside.tape,
        Code.Guarded.jumpBackward_eq inside.code, Option.bind_eq_bind, Option.bind_some]
      split <;> rfl
  | receive =>
      simp only [perform, Machine.perform, receiveIn, Tape.Guarded.modify_eq inside.tape,
        Option.bind_eq_bind, Option.bind_some]
      rcases m.network.receive transport m.world with ⟨_ | byte, network, world⟩ <;> rfl
  | flush =>
      simp only [perform, Machine.perform, sendOut, Tape.Guarded.modify_eq inside.tape,
        Option.bind_eq_bind, Option.bind_some]
      rcases m.network.push transport m.world with ⟨_ | _ | _, network, world⟩ <;> rfl
  | output | setTimeout | setPort | queueSend =>
      simp only [perform, Tape.Guarded.cell_eq inside.tape, Option.bind_eq_bind,
        Option.bind_some]
      rfl

/-- A move that leaves the tape was executed at most as often as it was to be. -/
theorem distance_lt (inside : m.WellFormed) {op : Opcode} {count : Nat}
    (leaves : (m.perform transport op count).2 = some .outOfBounds) :
    distance (m.perform transport op count).1.tape.pointer m.tape.pointer + 1 ≤ count := by
  have foldable : op.isFoldable = true := by
    apply Bool.of_not_eq_false
    intro single
    exact perform_ne_outOfBounds transport m single count leaves
  have most := Tape.executed_le inside.tape op count
  rw [perform_foldable transport m foldable] at leaves ⊢
  cases fits : (m.tape.repeated op count).2 with
  | true => simp [fits] at leaves
  | false => simpa [Tape.executed, fits, distance] using most

theorem execute_eq (inside : m.WellFormed) (op : Opcode) (count : Nat) :
    execute transport m op count = some (m.execute transport op count) := by
  unfold execute Machine.execute
  simp only [perform_eq transport inside, Option.bind_eq_bind, Option.bind_some]
  split
  · next leaves => rw [difference?_eq (distance_lt transport inside leaves)]; rfl
  · rfl

theorem batch_eq (m : Machine σ) (op : Opcode) {code : Code} (inside : code.WellFormed) :
    batch m op code = some (m.batch op code) := by
  unfold batch Machine.batch
  split
  · exact Code.Guarded.popRepeats_eq inside
  · rfl

/-- A step of a well-formed machine fails no check. -/
theorem step_eq (inside : m.WellFormed) : step transport m = some (m.step transport) := by
  have popped := inside.code.pop
  unfold step Machine.step
  generalize m.code.pop = next at popped ⊢
  rcases next with ⟨_ | byte, code⟩
  · rfl
  · dsimp only
    cases Opcode.decode? byte code.extensions with
    | none => rfl
    | some op =>
        have behind := batch_wellFormed m op popped
        simp only [batch_eq m op popped, Option.bind_eq_bind, Option.bind_some]
        exact execute_eq transport (inside.withCode behind) op _

/-- A run of a well-formed machine fails no check. -/
theorem run_eq (inside : m.WellFormed) (budget : Nat) :
    run transport budget m = some (m.run transport budget) := by
  induction budget generalizing m with
  | zero => rfl
  | succ budget ih =>
      have after := step_wellFormed transport inside
      simp only [run, Machine.run, step_eq transport inside, Option.bind_eq_bind,
        Option.bind_some]
      rcases stepped : m.step transport with ⟨next, _ | stop⟩
      · rw [stepped] at after
        exact ih after
      · rfl

end Guarded

end Machine

end TapeNet
