import TapeNet.Proofs.Network.Agreement
import TapeNet.Proofs.Network.Chronicle

/-!
# Attempts to receive

An attempt that gives a byte has read this byte and no other, and leaves the
connection open.  One that gives none has read none, and leaves a connection
open only if its last call found that a peer has come.  A receive touches
neither the bytes that wait to be sent nor what was selected, and as long as it
is repeated until it succeeds, what it answers was read.
-/

namespace TapeNet

namespace Network

/-- The bytes that wait to be sent, the port and the timeout are left as they were. -/
structure Spares (net last : Network) : Prop where
  queue : last.queue = net.queue
  port : last.port = net.port
  timeout : last.timeout = net.timeout

namespace Spares

variable {net next last : Network}

theorem refl (net : Network) : Spares net net :=
  ⟨rfl, rfl, rfl⟩

theorem trans (first : Spares net next) (second : Spares next last) : Spares net last :=
  ⟨second.queue.trans first.queue, second.port.trans first.port,
    second.timeout.trans first.timeout⟩

theorem isBlocking (spares : Spares net last) : last.isBlocking = net.isBlocking := by
  unfold Network.isBlocking
  rw [spares.timeout]

end Spares

/-- The last call finds a peer, whose connection is open now. -/
def EndsWithPeer (last : Network) (calls : List Call) : Prop :=
  ∃ earlier listener connection, calls = earlier ++ [.await listener (.peer connection)] ∧
    last.connection = some connection

/-- What is true of an attempt to receive that started with `net` and made these calls. -/
structure Attempt (net : Network) (byte : Option UInt8) (last : Network) (calls : List Call) :
    Prop where
  spares : Spares net last
  /-- What was read is what is given. -/
  reads : calls.flatMap Call.got = byte.toList
  success : byte.isSome → last.link = .connected
  /-- A connection that is open behind a failure is one that came with the last call. -/
  failure : byte = none → last.link = .connected → EndsWithPeer last calls

/-- Taking a byte leaves the network as it is; without a byte everything is closed. -/
inductive Taken {σ : Type} (net : Network) : Option UInt8 × Network × σ → Prop where
  | some (byte : UInt8) (world : σ) : Taken net (some byte, net, world)
  | none (world : σ) : Taken net (none, net.closed, world)

section

variable {σ : Type} (transport : Transport σ)

theorem spares_adopt (net : Network) (arrival : Arrival) : Spares net (net.adopt arrival) := by
  cases arrival with
  | nobody | peer connection | failed => exact ⟨rfl, rfl, rfl⟩

theorem spares_settle (net : Network) (world : σ) : Spares net (net.settle transport world).1 := by
  unfold settle
  cases net.listener with
  | none => exact .refl net
  | some listener => exact spares_adopt net _

theorem spares_listen (net : Network) (world : σ) :
    Spares net (net.listen transport world).2.1 := by
  unfold listen
  rw [reset_eq transport net world]
  dsimp only
  split
  · exact ⟨rfl, rfl, rfl⟩
  · exact ⟨rfl, rfl, rfl⟩

theorem take_taken (net : Network) (world : σ) : Taken net (net.take transport world) := by
  unfold take
  split
  · exact .some _ _
  · exact .none _

theorem spares_take (net : Network) (world : σ) : Spares net (net.take transport world).2.1 := by
  have taken := take_taken transport net world
  generalize net.take transport world = result at taken ⊢
  cases taken with
  | some byte next => exact .refl net
  | none next => exact ⟨rfl, rfl, rfl⟩

theorem spares_approach (net : Network) (world : σ) :
    Spares net (net.approach transport world).2.1 := by
  unfold approach
  cases net.link with
  | idle => exact spares_listen transport net world
  | listening => exact .refl net
  | connected =>
      have taken := spares_take transport net world
      dsimp only
      split
      · next answer => rwa [answer] at taken
      · next answer =>
          rw [answer] at taken
          exact taken.trans (spares_listen transport _ _)

theorem spares_collect (net : Network) (world : σ) :
    Spares net (net.collect transport world).2.1 := by
  unfold collect
  cases net.link with
  | idle | listening => exact .refl net
  | connected => exact spares_take transport net world

theorem spares_meet (net : Network) (world : σ) : Spares net (net.meet transport world).2.1 := by
  unfold meet
  cases net.listener with
  | none => exact .refl net
  | some listener =>
      dsimp only
      split
      · exact spares_settle transport net _
      · exact (spares_adopt net _).trans (spares_collect transport _ _)

theorem spares_receiveOnce (net : Network) (world : σ) :
    Spares net (net.receiveOnce transport world).2.1 := by
  have approached := spares_approach transport net world
  unfold receiveOnce
  split
  · next answer => rwa [answer] at approached
  · next answer =>
      rw [answer] at approached
      exact approached.trans (spares_meet transport _ _)

theorem spares_receiveWithin (attempts : Nat) (net : Network) (world : σ) :
    Spares net (net.receiveWithin transport attempts world).2.1 := by
  induction attempts generalizing net world with
  | zero => exact .refl net
  | succ attempts ih =>
      have once := spares_receiveOnce transport net world
      unfold receiveWithin
      split
      · next answer => rwa [answer] at once
      · next answer =>
          rw [answer] at once
          split
          · exact (once.trans (spares_settle transport _ _)).trans (ih _ _)
          · exact once

/-- A receive that is repeated until it succeeds answers what was read. -/
theorem receiveWithin_of_isBlocking (attempts : Nat) {net : Network} (world : σ)
    (blocking : net.isBlocking = true) :
    (net.receiveWithin transport attempts world).1 =
      net.obtainedWithin transport attempts world := by
  induction attempts generalizing net world with
  | zero => rfl
  | succ attempts ih =>
      have once := spares_receiveOnce transport net world
      unfold receiveWithin obtainedWithin
      generalize net.receiveOnce transport world = result at once ⊢
      obtain ⟨byte, last, next⟩ := result
      cases byte with
      | some byte => rfl
      | none =>
          have still : last.isBlocking = true := once.isBlocking.trans blocking
          have settled := spares_settle transport last (transport.pause next)
          dsimp only
          rw [if_pos still, if_pos still]
          exact ih _ (settled.isBlocking.trans still)

/-- A receive that is not repeated answers what was read, or zero for nothing. -/
theorem receiveWithin_of_not_isBlocking (attempts : Nat) {net : Network} (world : σ)
    (impatient : net.isBlocking = false) :
    (net.receiveWithin transport (attempts + 1) world).1 =
      some ((net.obtainedWithin transport (attempts + 1) world).getD 0) := by
  have once := spares_receiveOnce transport net world
  unfold receiveWithin obtainedWithin
  generalize net.receiveOnce transport world = result at once ⊢
  obtain ⟨byte, last, next⟩ := result
  cases byte with
  | some byte => rfl
  | none =>
      have still : ¬ last.isBlocking = true := by
        rw [once.isBlocking, impatient]
        exact Bool.false_ne_true
      dsimp only
      rw [if_neg still, if_neg still]
      rfl

theorem listen_link_ne (net : Network) (world : σ) :
    (net.listen transport world).2.1.link ≠ .connected := by
  unfold listen
  rw [reset_eq transport net world]
  dsimp only
  split
  · exact fun connected => nomatch connected
  · exact fun connected => nomatch connected

/-- The first part of a receive leaves a connection open exactly if it gives a byte. -/
theorem approach_isSome_iff (net : Network) (world : σ) :
    (net.approach transport world).1.isSome ↔
      (net.approach transport world).2.1.link = .connected := by
  unfold approach
  cases link : net.link with
  | idle => exact iff_of_false Bool.false_ne_true (listen_link_ne transport net world)
  | listening => exact iff_of_false Bool.false_ne_true (by rw [link]; exact nofun)
  | connected =>
      have taken := take_taken transport net world
      generalize net.take transport world = result at taken ⊢
      cases taken with
      | some byte next => exact iff_of_true rfl link
      | none next => exact iff_of_false Bool.false_ne_true (listen_link_ne transport _ _)

/-- The last part of a receive leaves a connection open exactly if it gives a byte. -/
theorem collect_isSome_iff (net : Network) (world : σ) :
    (net.collect transport world).1.isSome ↔
      (net.collect transport world).2.1.link = .connected := by
  unfold collect
  cases link : net.link with
  | idle | listening => exact iff_of_false Bool.false_ne_true (by rw [link]; exact nofun)
  | connected =>
      have taken := take_taken transport net world
      generalize net.take transport world = result at taken ⊢
      cases taken with
      | some byte next => exact iff_of_true rfl link
      | none next => exact iff_of_false Bool.false_ne_true nofun

/-- With a byte, the wait for a peer leaves its connection open. -/
theorem meet_success (net : Network) (world : σ) (given : (net.meet transport world).1.isSome) :
    (net.meet transport world).2.1.link = .connected := by
  unfold meet at given ⊢
  cases waits : net.listener with
  | none =>
      rw [waits] at given
      cases given
  | some listener =>
      rw [waits] at given
      dsimp only at given ⊢
      split at given
      · cases given
      · exact (collect_isSome_iff transport _ _).mp given

theorem settle_endsWithPeer {net : Network} (apart : net.link ≠ .connected)
    (state : σ × List Call) (connected : (net.settle transport.traced state).1.link = .connected) :
    EndsWithPeer (net.settle transport.traced state).1 (net.settle transport.traced state).2.2 := by
  unfold settle at connected ⊢
  cases waits : net.listener with
  | none =>
      rw [waits] at connected
      cases apart connected
  | some listener =>
      rw [waits] at connected
      dsimp only [Transport.traced] at connected ⊢
      cases arrival : (transport.poll listener state.1).1 with
      | nobody =>
          rw [arrival] at connected
          cases apart connected
      | peer connection => exact ⟨state.2, listener, connection, rfl, rfl⟩
      | failed =>
          rw [arrival] at connected
          cases connected

/-- Without a byte, a connection that the wait leaves open came with its last call. -/
theorem meet_endsWithPeer {net : Network} (apart : net.link ≠ .connected) (state : σ × List Call)
    (nothing : (net.meet transport.traced state).1 = none)
    (connected : (net.meet transport.traced state).2.1.link = .connected) :
    EndsWithPeer (net.meet transport.traced state).2.1
      (net.meet transport.traced state).2.2.2 := by
  unfold meet at nothing connected ⊢
  cases waits : net.listener with
  | none =>
      rw [waits] at connected
      cases apart connected
  | some listener =>
      rw [waits] at nothing connected
      dsimp only at nothing connected ⊢
      generalize transport.traced.await listener net.timeout state = awaited
        at nothing connected ⊢
      obtain ⟨arrival, next⟩ := awaited
      cases arrival with
      | nobody => exact settle_endsWithPeer transport apart next connected
      | peer connection | failed =>
          -- A read follows, and what it leaves open has given a byte.
          have given := (collect_isSome_iff transport.traced _ next).mpr connected
          cases (congrArg Option.isSome nothing).symm.trans given

theorem receiveOnce_success (net : Network) (world : σ)
    (given : (net.receiveOnce transport world).1.isSome) :
    (net.receiveOnce transport world).2.1.link = .connected := by
  have approached := (approach_isSome_iff transport net world).mp
  unfold receiveOnce at given ⊢
  generalize net.approach transport world = result at approached given ⊢
  obtain ⟨byte, middle, next⟩ := result
  cases byte with
  | some byte => exact approached rfl
  | none => exact meet_success transport middle next given

theorem receiveOnce_endsWithPeer (net : Network) (state : σ × List Call)
    (nothing : (net.receiveOnce transport.traced state).1 = none)
    (connected : (net.receiveOnce transport.traced state).2.1.link = .connected) :
    EndsWithPeer (net.receiveOnce transport.traced state).2.1
      (net.receiveOnce transport.traced state).2.2.2 := by
  have approached := (approach_isSome_iff transport.traced net state).mpr
  unfold receiveOnce at nothing connected ⊢
  generalize net.approach transport.traced state = result at approached nothing connected ⊢
  obtain ⟨byte, middle, next⟩ := result
  cases byte with
  | some byte => cases nothing
  | none =>
      have apart : middle.link ≠ .connected := fun open_still => nomatch approached open_still
      exact meet_endsWithPeer transport apart next nothing connected

/-- What an attempt to receive does, told by its calls. -/
theorem receiveOnce_attempt (net : Network) (world : σ) :
    Attempt net (net.receiveOnce transport world).1 (net.receiveOnce transport world).2.1
      (net.receiveOnce transport.traced (world, [])).2.2.2 := by
  have parallel := traces_parallel transport net.hold []
  have matched := parallel.receiveOnce (traces_refl .none world)
  have spares := spares_receiveOnce transport net world
  have success := receiveOnce_success transport net world
  have failure := receiveOnce_endsWithPeer transport net (world, [])
  generalize net.receiveOnce transport world = plain at matched spares success ⊢
  generalize net.receiveOnce transport.traced (world, []) = told at matched failure ⊢
  obtain @⟨byte, last, next, _, traces⟩ := matched
  exact ⟨spares, traces.reads, success, failure⟩

/-- What is true of a receive that answered this and made these calls. -/
structure Received (net : Network) (answer : Option UInt8) (last : Network) (calls : List Call) :
    Prop where
  spares : Spares net last
  /-- Repeated until it succeeds, a receive answers the only byte that it has read. -/
  blocking : net.isBlocking = true → calls.flatMap Call.got = answer.toList
  /-- A receive that is not repeated answers it too, or zero if it has read none. -/
  impatient : net.isBlocking = false →
    ∃ byte : Option UInt8, answer = some (byte.getD 0) ∧ calls.flatMap Call.got = byte.toList

/-- What a receive does, told by its calls. -/
theorem receive_received (net : Network) (world : σ) :
    Received net (net.receive transport world).1 (net.receive transport world).2.1
      (net.receive transport.traced (world, [])).2.2.2 := by
  have parallel := traces_parallel transport net.hold []
  have matched := parallel.receive (traces_refl .none world)
  have spares : Spares net (net.receive transport world).2.1 :=
    spares_receiveWithin transport _ net world
  have blocking : net.isBlocking = true →
      (net.receive transport world).1 = net.obtained transport world :=
    receiveWithin_of_isBlocking transport _ world
  have impatient : net.isBlocking = false →
      (net.receive transport world).1 = some ((net.obtained transport world).getD 0) :=
    receiveWithin_of_not_isBlocking transport _ world
  generalize net.receive transport world = plain at matched spares blocking impatient ⊢
  generalize net.receive transport.traced (world, []) = told at matched ⊢
  obtain @⟨answer, last, next, _, traces⟩ := matched
  refine ⟨spares, ?_, ?_⟩
  · intro patient
    rw [blocking patient]
    exact traces.reads
  · intro hasty
    exact ⟨net.obtained transport world, impatient hasty, traces.reads⟩

end

end Network

end TapeNet
