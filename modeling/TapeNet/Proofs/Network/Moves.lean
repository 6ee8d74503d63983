import TapeNet.Proofs.Network.Telling

/-!
# Moves

Everything that can be done with a network or can happen to it, in any order.
A receive that waits leaves the network to others in the meantime, so its two
parts are moves of their own beside the whole, and so is the end of a
listener's wait.
-/

namespace TapeNet

namespace Network

/-- What can be done with a network, and what can happen to it. -/
inductive Move where
  | setPort (byte : UInt8)
  | setTimeout (byte : UInt8)
  | enqueue (byte : UInt8)
  | push
  | receive
  | reset
  /-- A listener hands over the peer that it has accepted, or is found to have failed. -/
  | settle
  /-- The first part of a receive: an open connection is tried, or a listener is set up. -/
  | approach
  /-- The last part of a receive: a byte is taken from a peer that has come. -/
  | collect
  deriving DecidableEq

namespace Move

variable {σ : Type}

/-- The network and the world after a move. -/
def make (transport : Transport σ) (move : Move) (net : Network) (world : σ) : Network × σ :=
  match move with
  | setPort byte => net.setPort transport byte world
  | setTimeout byte => (net.setTimeout byte, world)
  | enqueue byte => (net.enqueue byte, world)
  | push => (net.push transport world).2
  | receive => (net.receive transport world).2
  | reset => net.reset transport world
  | settle => net.settle transport world
  | approach => (net.approach transport world).2
  | collect => (net.collect transport world).2

/-- The byte that a move selects a port with. -/
def portByte? : Move → Option UInt8
  | setPort byte => some byte
  | _ => none

/-- The byte that a move selects a timeout with. -/
def timeoutByte? : Move → Option UInt8
  | setTimeout byte => some byte
  | _ => none

/-- The bytes that a move puts into the queue. -/
def queued : Move → List UInt8
  | enqueue byte => [byte]
  | _ => []

/-- A move that neither selects anything nor puts anything into the queue. -/
structure Uses (move : Move) : Prop where
  port : move.portByte? = none
  timeout : move.timeoutByte? = none
  queue : move.queued = []

/-- What a move makes of a network, and what it leaves on the record. -/
inductive Makes : Move → Network → List Event → Network → Prop where
  | setPort (net : Network) (byte : UInt8) :
      Makes (.setPort byte) net net.closing { net.closed with port := portOf byte, queue := #[] }
  | setTimeout (net : Network) (byte : UInt8) :
      Makes (.setTimeout byte) net [] (net.setTimeout byte)
  | enqueue (net : Network) (byte : UInt8) :
      Makes (.enqueue byte) net [] (net.enqueue byte)
  | other {move : Move} (uses : move.Uses) {net last : Network} {events : List Event}
      (changes : Changes net events last) : Makes move net events last

end Move

section

variable {σ : Type} (transport : Transport σ)

/-- The network and the world after several moves. -/
def play : List Move → Network → σ → Network × σ
  | [], net, world => (net, world)
  | move :: moves, net, world =>
    let (net, world) := move.make transport net world
    play moves net world

theorem play_append (first second : List Move) (net : Network) (world : σ) :
    play transport (first ++ second) net world =
      play transport second (play transport first net world).1
        (play transport first net world).2 := by
  induction first generalizing net world with
  | nil => rfl
  | cons move first ih => exact ih _ _

/-- A move and what it left on the record. -/
structure Turn where
  move : Move
  events : List Event

/--
The moves of a network together with what a record of each shows.  That a
record alters nothing is `Move.make_recorded`.
-/
def history : List Move → Network → σ → List Turn
  | [], _, _ => []
  | move :: moves, net, world =>
    let (last, next) := move.make transport net world
    ⟨move, (move.make transport.recorded net (world, [])).2.2⟩ :: history moves last next

theorem Move.makes_of_tells {α : Type} {move : Move} (uses : move.Uses) {net : Network}
    {plain : α × Network × σ} {told : α × Network × σ × List Event} (tells : Tells net [] plain told) :
    move.Makes net told.2.2.2 plain.2.1 ∧ told.2 = (plain.2.1, plain.2.2, told.2.2.2) := by
  obtain ⟨changes⟩ := tells
  exact ⟨.other uses changes, rfl⟩

/-- A record shows what a move makes, and does not alter it. -/
theorem Move.make_recorded (move : Move) (net : Network) (world : σ) :
    ∃ events, move.Makes net events (move.make transport net world).1 ∧
      move.make transport.recorded net (world, []) =
        ((move.make transport net world).1, (move.make transport net world).2, events) := by
  cases move with
  | setPort byte =>
      obtain ⟨world', plain, told⟩ := reset_recorded transport net [] world
      refine ⟨net.closing, ?_, ?_⟩
      · simp only [make, Network.setPort, plain]
        exact .setPort net byte
      · simp only [make, Network.setPort, plain, told, List.nil_append]
  | setTimeout byte => exact ⟨[], .setTimeout net byte, rfl⟩
  | enqueue byte => exact ⟨[], .enqueue net byte, rfl⟩
  | push => exact ⟨_, makes_of_tells ⟨rfl, rfl, rfl⟩ (tells_push transport net [] world)⟩
  | receive => exact ⟨_, makes_of_tells ⟨rfl, rfl, rfl⟩ (tells_receive transport net [] world)⟩
  | reset => exact ⟨_, makes_of_tells ⟨rfl, rfl, rfl⟩ (tells_reset transport net [] world)⟩
  | settle => exact ⟨_, makes_of_tells ⟨rfl, rfl, rfl⟩ (tells_settle transport net [] world)⟩
  | approach => exact ⟨_, makes_of_tells ⟨rfl, rfl, rfl⟩ (tells_approach transport net [] world)⟩
  | collect => exact ⟨_, makes_of_tells ⟨rfl, rfl, rfl⟩ (tells_collect transport net [] world)⟩

theorem Move.makes (move : Move) (net : Network) (world : σ) :
    move.Makes net (move.make transport.recorded net (world, [])).2.2
      (move.make transport net world).1 := by
  obtain ⟨events, makes, told⟩ := move.make_recorded transport net world
  rw [told]
  exact makes

end

end Network

end TapeNet
