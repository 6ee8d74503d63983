import TapeNet.Proofs.Code.Jump
import TapeNet.Proofs.Machine.Life

/-!
# The program of a machine

Whatever a machine does, its program stays what it was, apart from where the
next instruction is.  At any time of its life the program is therefore the one
that was read last, and going back to the first instruction gives it as it was
read.
-/

namespace TapeNet

namespace Code

theorem reset_jumpForward (code : Code) (closing : UInt8) :
    (code.jumpForward closing).2.reset = code.reset := by
  rw [jumpForward_kept]
  rfl

theorem reset_jumpBackward (code : Code) (opening : UInt8) :
    (code.jumpBackward opening).2.reset = code.reset := by
  rw [jumpBackward_kept]
  rfl

theorem reset_popRepeats (code : Code) : code.popRepeats.2.reset = code.reset := by
  unfold popRepeats
  split <;> rfl

theorem reset_pop (code : Code) : code.pop.2.reset = code.reset := by
  unfold pop
  split <;> rfl

/-- The text of the program that an operation leaves behind. -/
def Operation.program (text : List UInt8) : Operation → List UInt8
  | replace source => source
  | _ => text

theorem Operation.reset_apply {text : List UInt8} {code : Code} (same : code.reset = .parse text)
    (operation : Operation) : (operation.apply code).reset = .parse (operation.program text) := by
  cases operation with
  | pop => exact (reset_pop code).trans same
  | jumpForward closing => exact (reset_jumpForward code closing).trans same
  | jumpBackward opening => exact (reset_jumpBackward code opening).trans same
  | popRepeats => exact (reset_popRepeats code).trans same
  | rewind | reset => exact same
  | replace source => rfl

end Code

namespace Machine

variable {σ : Type} (transport : Transport σ)

theorem reset_perform (m : Machine σ) (op : Opcode) (count : Nat) :
    (m.perform transport op count).1.code.reset = m.code.reset := by
  cases op with
  | input =>
      simp only [perform, readIn]
      split <;> rfl
  | loopStart =>
      simp only [perform, enterLoop]
      split
      · exact m.code.reset_jumpForward _
      · rfl
  | loopEnd =>
      simp only [perform, repeatLoop]
      split
      · rfl
      · exact m.code.reset_jumpBackward _
  | receive =>
      simp only [perform, receiveIn]
      split <;> rfl
  | flush =>
      simp only [perform, sendOut]
      split <;> rfl
  | _ => rfl

theorem reset_execute (m : Machine σ) (op : Opcode) (count : Nat) :
    (m.execute transport op count).1.code.reset = m.code.reset := by
  have same := reset_perform transport m op count
  unfold execute
  dsimp only
  split <;> exact same

theorem reset_batch (m : Machine σ) (op : Opcode) (code : Code) :
    (m.batch op code).2.reset = code.reset := by
  unfold batch
  split
  · exact code.reset_popRepeats
  · rfl

/-- A step changes the program counter of a program and nothing else. -/
theorem reset_step (m : Machine σ) : (m.step transport).1.code.reset = m.code.reset := by
  rcases step_cases transport m with ⟨_, finished⟩ | ⟨byte, _, _, unknown⟩ | ⟨op, _, _, executed⟩
  · rw [finished]
  · rw [unknown]
    rfl
  · rw [executed, reset_execute transport]
    exact reset_batch m op m.popped

theorem reset_run (m : Machine σ) (budget : Nat) :
    (m.run transport budget).1.code.reset = m.code.reset := by
  induction budget generalizing m with
  | zero => rfl
  | succ budget ih =>
      have once := reset_step transport m
      unfold run
      generalize m.step transport = result at once ⊢
      obtain ⟨next, stop⟩ := result
      cases stop with
      | none => exact (ih next).trans once
      | some stop => exact once

/-- The text of the program that an operation leaves a machine with. -/
def Operation.program (text : List UInt8) : Operation → List UInt8
  | reload source =>
    match source.readAll with
    | .ok bytes => bytes
    | .error _ => text
  | onCode operation => operation.program text
  | _ => text

/-- The text of the program that was read last. -/
def program : List Operation → List UInt8 → List UInt8
  | [], text => text
  | operation :: operations, text => program operations (operation.program text)

variable {m : Machine σ}

theorem Operation.reset_apply {text : List UInt8} (same : m.code.reset = .parse text)
    (operation : Operation) :
    (operation.apply transport m).code.reset = .parse (operation.program text) := by
  cases operation with
  | step => exact (reset_step transport m).trans same
  | run budget => exact (reset_run transport m budget).trans same
  | reload source =>
      simp only [apply, Machine.reload, Operation.program]
      cases source.readAll with
      | ok bytes => rfl
      | error reason => exact same
  | onCode operation => exact operation.reset_apply same
  | reset | onTape | onNetwork | feed | drain => exact same

/-- Through all of its life, a machine has the program that was read last. -/
theorem reset_live {text : List UInt8} (same : m.code.reset = .parse text)
    (operations : List Operation) :
    (live transport operations m).code.reset = .parse (program operations text) := by
  induction operations generalizing m text with
  | nil => exact same
  | cons operation operations ih => exact ih (operation.reset_apply transport same)

end Machine

end TapeNet
