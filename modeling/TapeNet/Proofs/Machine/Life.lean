import TapeNet.Proofs.Machine.Guarded
import TapeNet.Proofs.Network.Moves

/-!
# The life of a machine

A machine is started with a program and is then stepped, run, reset, given
another program, or touched by hand, any number of times and in any order.
Through all of its life it is well formed: no check of an index or a difference
ever fails, every byte of its code is an opcode that may be used, and a step
finds the end exactly where the program counter stands behind the code.
-/

namespace TapeNet

namespace Machine

variable {σ : Type}

/-- What can be done with a machine. -/
inductive Operation where
  | step
  | run (budget : Nat)
  | reset
  /-- Another program is read, or fails to be read. -/
  | reload (text : Source)
  | onTape (operation : Tape.Operation)
  | onCode (operation : Code.Operation)
  /-- The network is used by hand, or something happens to it in the background. -/
  | onNetwork (move : Network.Move)
  /-- Input comes from another source from now on. -/
  | feed (source : Source)
  /-- Output goes to another sink from now on. -/
  | drain (sink : Sink)

namespace Operation

variable (transport : Transport σ)

/-- The machine after an operation. -/
def apply (m : Machine σ) : Operation → Machine σ
  | step => (m.step transport).1
  | run budget => (m.run transport budget).1
  | reset => m.reset
  | reload text => (m.reload text).1
  | onTape operation => { m with tape := operation.apply m.tape }
  | onCode operation => { m with code := operation.apply m.code }
  | onNetwork move =>
    let (network, world) := move.make transport m.network m.world
    { m with network, world }
  | feed source => { m with source }
  | drain sink => { m with sink }

/-- The machine after a guarded operation. -/
def guarded (m : Machine σ) : Operation → Option (Machine σ)
  | step => (Guarded.step transport m).map Prod.fst
  | run budget => (Guarded.run transport budget m).map Prod.fst
  | onTape operation => (operation.guarded m.tape).map fun tape => { m with tape }
  | onCode operation => (operation.guarded m.code).map fun code => { m with code }
  | operation => some (operation.apply transport m)

/-- Every operation keeps a machine well formed. -/
theorem apply_wellFormed {m : Machine σ} (inside : m.WellFormed) (operation : Operation) :
    (operation.apply transport m).WellFormed := by
  cases operation with
  | step => exact step_wellFormed transport inside
  | run budget => exact run_wellFormed transport inside budget
  | reset => exact ⟨inside.code.reset, Tape.blank_wellFormed⟩
  | reload text =>
      simp only [apply, Machine.reload]
      split
      · exact ⟨.parse _, inside.tape⟩
      · exact inside
  | onTape operation => exact ⟨inside.code, operation.apply_wellFormed inside.tape⟩
  | onCode operation => exact ⟨operation.apply_wellFormed inside.code, inside.tape⟩
  | onNetwork | feed | drain => exact ⟨inside.code, inside.tape⟩

theorem guarded_eq {m : Machine σ} (inside : m.WellFormed) (operation : Operation) :
    operation.guarded transport m = some (operation.apply transport m) := by
  cases operation with
  | step => rw [guarded, Guarded.step_eq transport inside]; rfl
  | run budget => rw [guarded, Guarded.run_eq transport inside]; rfl
  | onTape operation => rw [guarded, operation.guarded_eq inside.tape]; rfl
  | onCode operation => rw [guarded, operation.guarded_eq inside.code]; rfl
  | reset | reload | onNetwork | feed | drain => rfl

end Operation

section

variable (transport : Transport σ)

/-- The machine after several operations. -/
def live : List Operation → Machine σ → Machine σ
  | [], m => m
  | operation :: operations, m => live operations (operation.apply transport m)

theorem live_append (first second : List Operation) (m : Machine σ) :
    live transport (first ++ second) m = live transport second (live transport first m) := by
  induction first generalizing m with
  | nil => rfl
  | cons operation first ih => exact ih (operation.apply transport m)

theorem live_wellFormed {m : Machine σ} (inside : m.WellFormed) (operations : List Operation) :
    (live transport operations m).WellFormed := by
  induction operations generalizing m with
  | nil => exact inside
  | cons operation operations ih => exact ih (operation.apply_wellFormed transport inside)

/-- A machine that is about to start the program written in `text`. -/
def about (text : List UInt8) (options : Options) (world : σ) (source : Source) (sink : Sink) :
    Machine σ :=
  { start (.parse text) options world with source, sink }

theorem about_wellFormed (text : List UInt8) (options : Options) (world : σ) (source : Source)
    (sink : Sink) : (about text options world source sink).WellFormed :=
  ⟨.parse text, Tape.blank_wellFormed⟩

variable {m : Machine σ}

/-- What every step keeps, a run keeps. -/
theorem WellFormed.run_keeps {Holds : Machine σ → Prop} (inside : m.WellFormed)
    (keeps : ∀ {m : Machine σ}, m.WellFormed → Holds m → Holds (m.step transport).1)
    (holds : Holds m) (budget : Nat) : Holds (m.run transport budget).1 := by
  induction budget generalizing m with
  | zero => exact holds
  | succ budget ih =>
      have once := keeps inside holds
      have kept := step_wellFormed transport inside
      unfold run
      generalize m.step transport = result at once kept ⊢
      obtain ⟨next, stop⟩ := result
      cases stop with
      | none => exact ih kept once
      | some stop => exact once

/-- What each of several operations keeps, all of them keep. -/
theorem WellFormed.live_keeps {Holds : Machine σ → Prop} (inside : m.WellFormed)
    {operations : List Operation}
    (keeps : ∀ {m : Machine σ}, m.WellFormed → ∀ operation ∈ operations,
      Holds m → Holds (operation.apply transport m))
    (holds : Holds m) : Holds (live transport operations m) := by
  induction operations generalizing m with
  | nil => exact holds
  | cons operation operations ih =>
      have first := keeps inside operation List.mem_cons_self holds
      exact ih (operation.apply_wellFormed transport inside)
        (fun inside other member => keeps inside other (List.mem_cons_of_mem _ member)) first

/-- A well-formed machine never meets a byte that is no opcode. -/
theorem WellFormed.step_cases (inside : m.WellFormed) :
    (m.code.pc = m.code.size ∧ m.step transport = (m, some .finished)) ∨
      ∃ op, m.code.bytes[m.code.pc]? = some op.byte ∧
        Opcode.decode? op.byte m.code.extensions = some op ∧
        m.step transport =
          ({ m with code := (m.batch op m.popped).2 } : Machine σ).execute transport op
            (m.batch op m.popped).1 := by
  rcases Machine.step_cases transport m with
    ⟨ended, finished⟩ | ⟨byte, here, unknown, _⟩ | executed
  · have behind : m.code.size ≤ m.code.pc := Array.getElem?_eq_none_iff.mp ended
    exact .inl ⟨Nat.le_antisymm inside.code.pc_le_size behind, finished⟩
  · have valid := inside.code.isValid byte (Array.mem_of_getElem? here)
    rw [Opcode.isValid, unknown] at valid
    cases valid
  · exact .inr executed

theorem WellFormed.step_ne_unknownByte (inside : m.WellFormed) (byte : UInt8) :
    (m.step transport).2 ≠ some (.unknownByte byte) := by
  rcases inside.step_cases transport with ⟨_, finished⟩ | ⟨op, _, _, executed⟩
  · rw [finished]
    simp
  · rw [executed, execute_stop transport]
    rcases perform_stop_cases transport _ op _ with goes | ⟨edge, _⟩ | ⟨stop, known, stops⟩
    · rw [goes]
      simp
    · rw [edge]
      simp
    · rw [stops]
      rintro ⟨⟩
      simp at known

theorem WellFormed.step_eq_finished_iff (inside : m.WellFormed) :
    (m.step transport).2 = some .finished ↔ m.code.pc = m.code.size := by
  rcases inside.step_cases transport with ⟨ended, finished⟩ | ⟨op, here, _, executed⟩
  · rw [finished]
    exact iff_of_true rfl ended
  · have within : m.code.pc < m.code.size := (Array.getElem?_eq_some_iff.mp here).1
    rw [executed, execute_stop transport]
    exact iff_of_false (perform_stop_ne transport _ op _).1 (Nat.ne_of_lt within)

/-- Nothing changes with the step that finds the end. -/
theorem WellFormed.step_of_finished (inside : m.WellFormed)
    (finished : (m.step transport).2 = some .finished) : (m.step transport).1 = m := by
  have ended := (inside.step_eq_finished_iff transport).mp finished
  rcases inside.step_cases transport with ⟨_, same⟩ | ⟨op, here, _, _⟩
  · rw [same]
  · have within := (Array.getElem?_eq_some_iff.mp here).1
    exact absurd ended (Nat.ne_of_lt within)

/-- What holds of a machine at any time of its life. -/
structure Sound (m : Machine σ) : Prop where
  wellFormed : m.WellFormed
  /-- No operation uses an index out of range or takes a difference that falls below zero. -/
  guarded : ∀ operation : Operation,
    operation.guarded transport m = some (operation.apply transport m)
  known : ∀ byte, (m.step transport).2 ≠ some (.unknownByte byte)
  finished_iff : (m.step transport).2 = some .finished ↔ m.code.pc = m.code.size
  unchanged : (m.step transport).2 = some .finished → (m.step transport).1 = m

/-- A machine is sound at any time of its life. -/
theorem live_sound (text : List UInt8) (options : Options) (world : σ) (source : Source)
    (sink : Sink) (operations : List Operation) :
    Sound transport (live transport operations (about text options world source sink)) := by
  have inside := live_wellFormed transport (about_wellFormed text options world source sink)
    operations
  exact ⟨inside, fun operation => operation.guarded_eq transport inside,
    inside.step_ne_unknownByte transport, inside.step_eq_finished_iff transport,
    inside.step_of_finished transport⟩

end

end Machine

end TapeNet
