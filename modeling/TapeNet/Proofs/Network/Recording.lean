import TapeNet.Proofs.Network.Parallel

/-!
# Recording what a network does

Every transport can be made to record what is done through it.  What a network
can do is said once, as the changes that one step of an operation makes
together with what they leave on the record.  Every operation is a row of such
changes, and recording them does not alter it.
-/

namespace TapeNet

/-- What is done through a transport; an attempt that fails leaves nothing, a write what it took. -/
inductive Event where
  | listened (listener : ListenerId)
  | unlistened (listener : ListenerId)
  | awaited (listener : ListenerId) (arrival : Arrival)
  | dialed (connection : ConnectionId)
  | hungUp (connection : ConnectionId)
  | wrote (connection : ConnectionId) (taken : List UInt8)
  deriving DecidableEq

/-- A transport that behaves in the same way and keeps a record. -/
def Transport.recorded {σ : Type} (transport : Transport σ) : Transport (σ × List Event) where
  listen place state :=
    let done := transport.listen place state.1
    (done.1, done.2, state.2 ++ done.1.toList.map .listened)
  unlisten listener state :=
    (transport.unlisten listener state.1, state.2 ++ [.unlistened listener])
  poll listener state :=
    let done := transport.poll listener state.1
    (done.1, done.2, state.2 ++ [.awaited listener done.1])
  await listener time state :=
    let done := transport.await listener time state.1
    (done.1, done.2, state.2 ++ [.awaited listener done.1])
  dial place time state :=
    let done := transport.dial place time state.1
    (done.1, done.2, state.2 ++ done.1.toList.map .dialed)
  hangUp connection state :=
    (transport.hangUp connection state.1, state.2 ++ [.hungUp connection])
  write connection time bytes state :=
    let done := transport.write connection time bytes state.1
    (done.1, done.2, state.2 ++ [.wrote connection (bytes.take (done.1.getD 0))])
  read connection time state :=
    let done := transport.read connection time state.1
    (done.1, done.2, state.2)
  pause state := (transport.pause state.1, state.2)
  patience state := transport.patience state.1

namespace Network

/-- What closing everything leaves on the record. -/
def closing (net : Network) : List Event :=
  net.listener.toList.map .unlistened ++ net.connection.toList.map .hungUp

/-- What can happen to a network in one step, and what it leaves on the record. -/
inductive Change : Network → List Event → Network → Prop where
  | close (net : Network) : Change net net.closing net.closed
  | dial {net : Network} (nothing : net.listener = none ∧ net.connection = none)
      (connection : ConnectionId) :
      Change net [.dialed connection]
        { net with connection := some connection, link := .connected }
  | listen {net : Network} (nothing : net.listener = none ∧ net.connection = none)
      (listener : ListenerId) :
      Change net [.listened listener] { net with listener := some listener, link := .listening }
  | arrive {net : Network} {listener : ListenerId} (waits : net.listener = some listener)
      (arrival : Arrival) :
      Change net [.awaited listener arrival] (net.adopt arrival)
  | write {net : Network} {connection : ConnectionId} (connected : net.connection = some connection)
      {taken rest : List UInt8} (queued : net.queue.toList = taken ++ rest) :
      Change net [.wrote connection taken] { net with queue := rest.toArray }

/-- A row of changes. -/
inductive Changes : Network → List Event → Network → Prop where
  | none (net : Network) : Changes net [] net
  | more {net next last : Network} {events later : List Event} (first : Change net events next)
      (rest : Changes next later last) : Changes net (events ++ later) last

namespace Changes

theorem single {net last : Network} {events : List Event} (change : Change net events last) :
    Changes net events last := by
  have row := more change (none last)
  rwa [List.append_nil] at row

theorem trans {net middle last : Network} {events later : List Event}
    (before : Changes net events middle) (after : Changes middle later last) :
    Changes net (events ++ later) last := by
  induction before with
  | none => exact after
  | more first _ ih =>
      rw [List.append_assoc]
      exact .more first (ih after)

end Changes

variable {σ : Type} {α : Type}

/--
An operation gives the same with and without a record, and makes the changes
that it adds to the record.
-/
inductive Tells (net : Network) (log : List Event) :
    α × Network × σ → α × Network × σ × List Event → Prop where
  | intro {result : α} {last : Network} {world : σ} {events : List Event}
      (changes : Changes net events last) :
      Tells net log (result, last, world) (result, last, world, log ++ events)

/-- Closing everything leaves on the record what was open. -/
theorem reset_recorded (transport : Transport σ) (net : Network) (log : List Event) (world : σ) :
    ∃ world', net.reset transport world = (net.closed, world') ∧
      net.reset transport.recorded (world, log) = (net.closed, world', log ++ net.closing) := by
  refine ⟨_, rfl, ?_⟩
  unfold reset closing
  cases net.listener with
  | none =>
      cases net.connection with
      | none => simp only [Option.toList_none, List.map_nil, List.append_nil]; rfl
      | some connection => rfl
  | some listener =>
      cases net.connection with
      | none => rfl
      | some connection =>
          simp only [Transport.recorded, List.append_assoc]
          rfl

end Network

end TapeNet
