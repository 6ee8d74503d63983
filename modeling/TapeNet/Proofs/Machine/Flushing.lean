import TapeNet.Proofs.Machine.Account
import TapeNet.Proofs.Machine.Locality
import TapeNet.Proofs.Network.Pushing

/-!
# Flushing

The opcode that sends what waits pushes the network of its machine and sets the
current cell to zero exactly if the push succeeded.  What the push says is true
at any time of the machine's life, for nothing that is done to the machine lets
the state of the link and what is open differ.
-/

namespace TapeNet

namespace Machine

variable {σ : Type} {transport : Transport σ} {m : Machine σ}

/-- What calls made of the network keeps the link and what is open in agreement. -/
theorem Acted.agrees {first last : Machine σ} {log : List Action}
    (acted : Acted transport first last log) (agrees : first.network.Agrees) :
    last.network.Agrees := by
  have played := (Network.play_agrees transport (calls log) first.world agrees).1
  rw [acted.network] at played
  exact played

theorem Operation.agrees (inside : m.WellFormed) (agrees : m.network.Agrees)
    (operation : Operation) : (operation.apply transport m).network.Agrees := by
  by_cases leaves : operation.leavesStreams = true
  · have acted := (Logged.apply_accounted transport inside leaves).acted
    rw [Logged.apply_result transport inside] at acted
    exact acted.agrees agrees
  · cases operation with
    | onNetwork move => exact ((move.makes transport m.network m.world).agrees agrees).1
    | feed | drain => exact agrees
    | step | run | reset | reload | onTape | onCode => exact absurd rfl leaves

/-- Through all of a machine's life, the state of its link says what is open. -/
theorem WellFormed.live_agrees (transport : Transport σ) (inside : m.WellFormed)
    (agrees : m.network.Agrees) (operations : List Operation) :
    (live transport operations m).network.Agrees :=
  inside.live_keeps transport (fun inside operation _ agrees => operation.agrees inside agrees)
    agrees

/-- What a flush makes of its machine, if the push ended in the given way. -/
structure Flushes (m last : Machine σ) (pushed : Option Bool × Network × σ) : Prop where
  cell : last.tape.cell = if pushed.1 = some true then 0 else m.tape.cell
  others : ∀ index ≠ m.tape.pointer, last.tape.cellAt index = m.tape.cellAt index
  pointer : last.tape.pointer = m.tape.pointer
  network : last.network = pushed.2.1
  world : last.world = pushed.2.2

theorem alone_flush (transport : Transport σ) (m : Machine σ) :
    (m.alone transport .flush).1.tape =
        (if (m.network.push transport m.world).1 = some true then m.tape.put 0 else m.tape) ∧
      (m.alone transport .flush).1.network = (m.network.push transport m.world).2.1 ∧
      (m.alone transport .flush).1.world = (m.network.push transport m.world).2.2 := by
  unfold alone perform sendOut
  dsimp only [facing, noted]
  generalize m.network.push transport m.world = pushed
  obtain ⟨_ | _ | _, network, world⟩ := pushed <;> exact ⟨rfl, rfl, rfl⟩

theorem WellFormed.flushes (inside : m.WellFormed) (next : m.IsNext .flush) :
    Flushes m (m.step transport).1 (m.network.push transport m.world) := by
  have stepLocal := inside.stepLocal transport
  have stays : ¬ m.IsNextOf Opcode.movers := by
    rintro ⟨op, moves, other⟩
    obtain rfl := next.unique other
    cases Opcode.isFoldable_of_mem_movers moves
  obtain ⟨tape, network, world⟩ := alone_flush transport m
  rw [← inside.step_of_next transport next rfl] at tape network world
  refine ⟨?_, stepLocal.cellAt, stepLocal.pointer stays, network, world⟩
  rw [tape]
  split
  · exact Tape.cell_put inside.tape 0
  · rfl

/-- What holds of sending the bytes that wait in the network of a machine. -/
structure Pushes (transport : Transport σ) (m : Machine σ) : Prop where
  /-- What a push says fits to what is left, to what is open and to the calls that it made. -/
  pushed : ∀ done last world, m.network.push transport m.world = (some done, last, world) →
    ∃ calls, m.network.push transport.traced (m.world, []) = (some done, last, world, calls) ∧
      Network.Pushed m.network done last calls
  /-- Only a push that is repeated until it succeeds may never return. -/
  answers : m.network.timeout ≠ Network.longTimeout →
    ∃ done, (m.network.push transport m.world).1 = some done
  flushes : m.IsNext .flush →
    Flushes m (m.step transport).1 (m.network.push transport m.world)

/--
At any time of a machine's life, and whatever its transport does as long as no
write takes more than it is offered, a push says exactly what has happened, and
a flush sets the current cell to zero exactly if its push succeeded.
-/
theorem live_pushes (honest : transport.Honest) (text : List UInt8) (options : Options) (world : σ)
    (source : Source) (sink : Sink) (operations : List Operation) :
    Pushes transport (live transport operations (about text options world source sink)) := by
  have started := about_wellFormed text options world source sink
  have inside := live_wellFormed transport started operations
  have agrees := started.live_agrees transport (Network.fresh_agrees options.addresses) operations
  exact ⟨fun _ _ _ pushed => Network.push_pushed honest agrees pushed,
    fun patient => Network.push_answers honest agrees patient _, inside.flushes⟩

/-- A text that listens for a moment, queues two bytes and sends them to nobody. -/
def unansweredText : List UInt8 :=
  ("tl:net:+*?+^+^;".toList).map Char.toUInt8

/-- All of the text is executed but its last instruction. -/
def unansweredOperations : List Operation :=
  [.run 7]

theorem live_pushes_unanswered :
    Loopback.transport.Honest ∧
      Pushes Loopback.transport
        (live Loopback.transport unansweredOperations
          (about unansweredText {} ({} : Loopback) {} {})) :=
  ⟨Loopback.transport_honest,
    live_pushes Loopback.transport_honest unansweredText {} {} {} {} unansweredOperations⟩

end Machine

end TapeNet
