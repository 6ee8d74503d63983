import TapeNet.Loopback.Transport
import TapeNet.Proofs.Code.Jump
import TapeNet.Proofs.Machine.Life
import TapeNet.Proofs.Network.Calls
import TapeNet.Proofs.Report.Record

/-!
# Programs without the network

Whether a machine may use the network is decided by its code alone.  As long as
the code does not enable the networking extension, no step finds an opcode that
touches the network, whatever bytes the code holds, and nothing that a step
does can enable the extension.  So a machine that never gets a program with the
extension never calls its transport.
-/

namespace TapeNet

namespace Opcode

/-- Without the networking extension, no byte stands for an opcode that needs it. -/
theorem needs_ne_net_of_decode? {byte : UInt8} {enabled : Extensions} {op : Opcode}
    (decoded : decode? byte enabled = some op) (lacks : enabled.contains .net = false) :
    op.needs ≠ .net := by
  intro needs
  obtain ⟨_, has⟩ := decode?_eq_some_iff.mp decoded
  rw [needs, lacks] at has
  cases has

/-- The opcodes that need the networking extension. -/
def networked : List Opcode :=
  [.setTimeout, .setPort, .receive, .queueSend, .flush]

theorem mem_networked_iff {op : Opcode} : op ∈ networked ↔ op.needs = .net := by
  cases op <;> decide

end Opcode

namespace Code

theorem jumpForward_extensions (code : Code) (closing : UInt8) :
    (code.jumpForward closing).2.extensions = code.extensions := by
  rw [jumpForward_kept]

theorem jumpBackward_extensions (code : Code) (opening : UInt8) :
    (code.jumpBackward opening).2.extensions = code.extensions := by
  rw [jumpBackward_kept]

theorem popRepeats_extensions (code : Code) : code.popRepeats.2.extensions = code.extensions := by
  unfold popRepeats
  split <;> rfl

end Code

namespace Machine

variable {σ : Type} (transport : Transport σ)

/--
A machine as it was, as far as the network is concerned: the same extensions,
network and world, and as many executions of every networked opcode.
-/
structure Untouched (m last : Machine σ) : Prop where
  extensions : last.code.extensions = m.code.extensions
  network : last.network = m.network
  world : last.world = m.world
  count : ∀ op ∈ Opcode.networked, last.report.count op = m.report.count op

namespace Untouched

variable {m middle last : Machine σ}

theorem refl (m : Machine σ) : Untouched m m :=
  ⟨rfl, rfl, rfl, fun _ _ => rfl⟩

theorem trans (before : Untouched m middle) (after : Untouched middle last) : Untouched m last where
  extensions := after.extensions.trans before.extensions
  network := after.network.trans before.network
  world := after.world.trans before.world
  count op member := (after.count op member).trans (before.count op member)

theorem withCode (untouched : Untouched m last) (code : Code)
    (same : code.extensions = last.code.extensions) : Untouched m { last with code } :=
  ⟨same.trans untouched.extensions, untouched.network, untouched.world, untouched.count⟩

/-- Accounting for an opcode that does not need the network extension. -/
theorem record (untouched : Untouched m last) {op : Opcode} (plain : op.needs ≠ .net)
    (count : Nat) : Untouched m { last with report := last.report.record op count } := by
  refine ⟨untouched.extensions, untouched.network, untouched.world, ?_⟩
  intro other member
  have different : op ≠ other := by
    rintro rfl
    exact plain (Opcode.mem_networked_iff.mp member)
  rw [← untouched.count other member]
  exact Report.count_record_of_ne last.report count different

end Untouched

/-- An opcode that does not need the network extension leaves the network alone. -/
theorem perform_untouched (m : Machine σ) {op : Opcode} (plain : op.needs ≠ .net) (count : Nat) :
    Untouched m (m.perform transport op count).1 := by
  cases op with
  | moveRight | moveLeft | increment | decrement | output => exact ⟨rfl, rfl, rfl, fun _ _ => rfl⟩
  | input =>
      simp only [perform, readIn]
      split <;> exact ⟨rfl, rfl, rfl, fun _ _ => rfl⟩
  | loopStart =>
      simp only [perform, enterLoop]
      split
      · exact (Untouched.refl m).withCode _ (m.code.jumpForward_extensions _)
      · exact .refl m
  | loopEnd =>
      simp only [perform, repeatLoop]
      split
      · exact .refl m
      · exact (Untouched.refl m).withCode _ (m.code.jumpBackward_extensions _)
  | setTimeout | setPort | receive | queueSend | flush => exact absurd rfl plain

theorem execute_untouched (m : Machine σ) {op : Opcode} (plain : op.needs ≠ .net) (count : Nat) :
    Untouched m (m.execute transport op count).1 := by
  have performed := perform_untouched transport m plain count
  unfold execute
  dsimp only
  split
  · exact (performed.withCode (Code.rewind _ _) rfl).record plain _
  · exact performed.record plain count

theorem batch_extensions (m : Machine σ) (op : Opcode) (code : Code) :
    (m.batch op code).2.extensions = code.extensions := by
  unfold batch
  split
  · exact code.popRepeats_extensions
  · rfl

/-- A machine whose code lacks the network extension takes no step that touches the network. -/
theorem step_untouched {m : Machine σ} (lacks : m.code.hasExtensions .net = false) :
    Untouched m (m.step transport).1 := by
  rcases step_cases transport m with
    ⟨_, finished⟩ | ⟨byte, _, _, unknown⟩ | ⟨op, _, decoded, executed⟩
  · rw [finished]
    exact .refl m
  · rw [unknown]
    exact (Untouched.refl m).withCode _ rfl
  · rw [executed]
    have plain := Opcode.needs_ne_net_of_decode? decoded lacks
    have behind : Untouched m { m with code := (m.batch op m.popped).2 } :=
      (Untouched.refl m).withCode _ (batch_extensions m op m.popped)
    exact behind.trans (execute_untouched transport _ plain _)

theorem Untouched.lacks {m last : Machine σ} (untouched : Untouched m last)
    (lacks : m.code.hasExtensions .net = false) : last.code.hasExtensions .net = false := by
  rw [Code.hasExtensions, untouched.extensions]
  exact lacks

theorem run_untouched {m : Machine σ} (lacks : m.code.hasExtensions .net = false) (budget : Nat) :
    Untouched m (m.run transport budget).1 := by
  induction budget generalizing m with
  | zero => exact .refl m
  | succ budget ih =>
      have once := step_untouched transport lacks
      unfold Machine.run
      generalize m.step transport = result at once ⊢
      obtain ⟨next, stop⟩ := result
      cases stop with
      | none => exact once.trans (ih (once.lacks lacks))
      | some stop => exact once

namespace Operation

/-- What keeps the program that a machine has, and does not touch its network by hand. -/
def keepsProgram : Operation → Bool
  | step | run _ | reset | feed _ | drain _ => true
  | reload _ | onTape _ | onCode _ | onNetwork _ => false

/-- What gives a machine no program with the networking extension, nor touches its network. -/
def KeepsOff (operation : Operation) : Prop :=
  operation.keepsProgram = true ∨
    ∃ text, operation = .reload text ∧
      ∀ bytes, text.readAll = .ok bytes → Extensions.detect bytes = .empty

theorem apply_untouched {m : Machine σ} (lacks : m.code.hasExtensions .net = false)
    {operation : Operation} (keeps : operation.keepsProgram = true) :
    Untouched m (operation.apply transport m) := by
  cases operation with
  | step => exact step_untouched transport lacks
  | run budget => exact run_untouched transport lacks budget
  | reset => exact ⟨rfl, rfl, rfl, fun _ _ => rfl⟩
  | feed source => exact ⟨rfl, rfl, rfl, fun _ _ => rfl⟩
  | drain sink => exact ⟨rfl, rfl, rfl, fun _ _ => rfl⟩
  | reload | onTape | onCode | onNetwork => cases keeps

end Operation

/-- A machine that never used the network and cannot use it. -/
structure Isolated (addresses : Addresses) (world : σ) (m : Machine σ) : Prop where
  lacks : m.code.hasExtensions .net = false
  network : m.network = .fresh addresses
  world : m.world = world
  count : ∀ op ∈ Opcode.networked, m.report.count op = 0

theorem Isolated.untouched {addresses : Addresses} {world : σ} {m last : Machine σ}
    (isolated : Isolated addresses world m) (untouched : Untouched m last) :
    Isolated addresses world last where
  lacks := untouched.lacks isolated.lacks
  network := untouched.network.trans isolated.network
  world := untouched.world.trans isolated.world
  count op member := (untouched.count op member).trans (isolated.count op member)

/-- A program whose header enables nothing lacks the networking extension. -/
theorem lacks_of_detect {text : List UInt8} (bare : Extensions.detect text = .empty) :
    (Code.parse text).hasExtensions .net = false := by
  have none_enabled : (Code.parse text).extensions = .empty := bare
  rw [Code.hasExtensions, none_enabled]
  rfl

theorem about_isolated {text : List UInt8} (bare : Extensions.detect text = .empty)
    (options : Options) (world : σ) (source : Source) (sink : Sink) :
    Isolated options.addresses world (about text options world source sink) where
  lacks := lacks_of_detect bare
  network := rfl
  world := rfl
  count op _ := Opcode.Table.get_fill 0 op

theorem Isolated.apply {addresses : Addresses} {world : σ} {m : Machine σ}
    (isolated : Isolated addresses world m) {operation : Operation} (keeps : operation.KeepsOff) :
    Isolated addresses world (operation.apply transport m) := by
  rcases keeps with keeps | ⟨text, rfl, bare⟩
  · exact isolated.untouched (operation.apply_untouched transport isolated.lacks keeps)
  · simp only [Operation.apply, Machine.reload]
    split
    · next bytes whole =>
        exact ⟨lacks_of_detect (bare bytes whole), isolated.network, isolated.world,
          isolated.count⟩
    · exact isolated

theorem Isolated.live {addresses : Addresses} {world : σ} {m : Machine σ}
    (isolated : Isolated addresses world m) {operations : List Operation}
    (keep : ∀ operation ∈ operations, operation.KeepsOff) :
    Isolated addresses world (live transport operations m) := by
  induction operations generalizing m with
  | nil => exact isolated
  | cons operation operations ih =>
      obtain ⟨keeps, keep⟩ := List.forall_mem_cons.mp keep
      exact ih (isolated.apply transport keeps) keep

/-- What holds of a machine whose programs all lacked the networking extension. -/
structure Secluded (addresses : Addresses) (world : σ) (m : Machine (σ × List Call)) : Prop where
  /-- The transport was not called, and its world is as it was. -/
  world : m.world = (world, [])
  link : m.network.link = .idle
  port : m.network.port = 42000
  timeout : m.network.timeout = 5000
  queue : m.network.queue = #[]
  network : m.network = .fresh addresses
  count : ∀ op ∈ [Opcode.setTimeout, .setPort, .receive, .queueSend, .flush],
    m.report.count op = 0

/--
A machine that is only ever given programs without the networking extension,
whatever bytes they hold, never calls its transport and leaves its network
fresh.  A machine whose present program lacks the extension keeps the network
that it has, wherever that comes from.
-/
theorem live_secluded {text : List UInt8} (bare : Extensions.detect text = .empty)
    (options : Options) (world : σ) (source : Source) (sink : Sink) {operations : List Operation}
    (keep : ∀ operation ∈ operations, operation.KeepsOff) :
    Secluded options.addresses world
        (live transport.traced operations (about text options (world, []) source sink)) ∧
      ∀ (m : Machine (σ × List Call)), m.code.hasExtensions .net = false →
        ∀ operation : Operation, operation.keepsProgram = true →
          (operation.apply transport.traced m).network = m.network ∧
            (operation.apply transport.traced m).world = m.world := by
  have isolated := (about_isolated bare options (world, []) source sink).live transport.traced keep
  have same := isolated.network
  refine ⟨⟨isolated.world, ?_, ?_, ?_, ?_, same, isolated.count⟩, ?_⟩
  · rw [same]; rfl
  · rw [same]; rfl
  · rw [same]; rfl
  · rw [same]; rfl
  · intro m lacks operation keeps
    have untouched := operation.apply_untouched transport.traced lacks keeps
    exact ⟨untouched.network, untouched.world⟩

/-- A text that almost begins with a header and holds the bytes of all networked opcodes. -/
def lookalikeText : List UInt8 :=
  ("tl:neet:++*@?^;<".toList).map Char.toUInt8

/-- Steps, runs and resets, with a program that is replaced by another one and then by none. -/
def secludedOperations : List Operation :=
  [.step, .run 100, .reload (.ofBytes (("tl:ten:>+;^?".toList).map Char.toUInt8)), .run 2, .reset,
    .run 7, .reload { script := [.bytes [0x2A], .failure "gone"] }, .step]

theorem secludedOperations_keepOff :
    ∀ operation ∈ secludedOperations, operation.KeepsOff := by
  simp only [secludedOperations, List.forall_mem_cons]
  refine ⟨.inl rfl, .inl rfl, .inr ⟨_, rfl, ?_⟩, .inl rfl, .inl rfl, .inl rfl,
    .inr ⟨_, rfl, ?_⟩, .inl rfl, fun _ member => by cases member⟩
  · intro bytes whole
    cases whole
    rfl
  · intro bytes whole
    cases whole

theorem live_secluded_lookalike :
    Extensions.detect lookalikeText = .empty ∧
      (∀ operation ∈ secludedOperations, operation.KeepsOff) ∧
      Secluded {} ({} : Loopback)
        (live Loopback.transport.traced secludedOperations
          (about lookalikeText { fold := true } ({}, []) {} {})) := by
  have bare : Extensions.detect lookalikeText = .empty := rfl
  exact ⟨bare, secludedOperations_keepOff,
    (live_secluded Loopback.transport bare { fold := true } {} {} {} secludedOperations_keepOff).1⟩

end Machine

end TapeNet
