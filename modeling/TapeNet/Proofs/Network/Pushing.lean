import TapeNet.Loopback.Transport
import TapeNet.Proofs.Network.Agreement
import TapeNet.Proofs.Network.Chronicle
import TapeNet.Proofs.Network.Chunks
import TapeNet.Proofs.Network.Closing

/-!
# Pushing

Over a transport on which no write takes more than it is offered, a push says
exactly what has become of the bytes that wait to be sent.  It succeeds exactly
if none is left and the network is connected; otherwise some are left on an open
connection, or nobody answered the last dial.  Whatever is left is the end of
what waited before, and a listener does not survive.
-/

namespace TapeNet

namespace SendQueue

variable {σ : Type} {write : List UInt8 → σ → Option Nat × σ}

/-- Sending is done exactly if nothing is left of the queue, and what is left is its end. -/
theorem flush_exact (honest : Honest write) (queue : List UInt8) (world : σ) :
    ((flush write queue world).1 = true ↔ (flush write queue world).2.1 = []) ∧
      (flush write queue world).2.1 <:+ queue := by
  obtain ⟨done, left, next, writes, flushed, _, chunked⟩ := exists_flush_logged honest queue world
  rw [flushed]
  exact ⟨chunked.done_iff_left, takenIn writes, chunked.balance⟩

end SendQueue

theorem Transport.Honest.traced {σ : Type} {transport : Transport σ} (honest : transport.Honest) :
    transport.traced.Honest := by
  intro connection time bytes state taken next wrote
  have answer : (transport.write connection time bytes state.1).1 = some taken :=
    congrArg Prod.fst wrote
  exact honest connection time bytes state.1 taken _ (Prod.ext answer rfl)

namespace Loopback

theorem writeUpTo_le {world next : Loopback} {connection : ConnectionId} {bytes : List UInt8}
    {limit taken : Nat} (wrote : world.writeUpTo connection bytes limit = (some taken, next)) :
    taken ≤ bytes.length := by
  unfold writeUpTo at wrote
  split at wrote
  · cases wrote
    exact List.length_take_le' _ _
  · cases wrote

/-- The loopback world takes no more than it is offered, whatever its wire does. -/
theorem transport_honest : transport.Honest := by
  intro connection time bytes world taken next wrote
  change world.write connection bytes = (some taken, next) at wrote
  unfold write at wrote
  split at wrote
  · dsimp only at wrote
    split at wrote
    · exact writeUpTo_le wrote
    · split at wrote
      · cases wrote
      · cases wrote
        exact Nat.zero_le _
      · exact writeUpTo_le wrote
  · exact writeUpTo_le wrote

end Loopback

namespace Network

/-- How the attempt to send what waits ends, in view of the calls made so far. -/
inductive Outcome (last : Network) (calls : List Call) : Bool → Prop where
  | sent (connected : last.link = .connected) (nothing : last.queue = #[]) : Outcome last calls true
  /-- A write took less than it was offered. -/
  | stuck (connected : last.link = .connected) (some_left : last.queue ≠ #[]) :
      Outcome last calls false
  /-- Nobody answered. -/
  | refused (idle : last.link = .idle) (earlier : List Call)
      (dialed : calls = earlier ++ [.dial ⟨last.addresses.target, last.port⟩ none]) :
      Outcome last calls false

/-- What is true of an attempt to send, whose calls are listed behind earlier ones. -/
structure Sends {σ : Type} (net : Network) (result : Bool × Network × (σ × List Call)) : Prop where
  outcome : Outcome result.2.1 result.2.2.2 result.1
  agrees : result.2.1.Agrees
  listener : result.2.1.listener = none
  unlistened : ∀ listener, net.listener = some listener → .unlisten listener ∈ result.2.2.2
  port : result.2.1.port = net.port
  timeout : result.2.1.timeout = net.timeout
  suffix : result.2.1.queue.toList <:+ net.queue.toList

section

variable {σ : Type} {transport : Transport σ} {net : Network} {state : σ × List Call}

/-- Calls are only ever added to those that are listed. -/
theorem outgoing_lists (transport : Transport σ) (call : Call) :
    Outgoing transport.traced fun state => call ∈ state.2 where
  resets net state member := by
    rw [reset_traced transport net state.1 state.2]
    exact List.mem_append_left _ member
  dials _ _ _ member := List.mem_append_left _ member
  writes _ _ _ _ member := List.mem_append_left _ member
  pauses member := List.mem_append_left _ member

/-- A network that is connected and waits for nobody sends what it can. -/
theorem Sends.send (honest : transport.Honest) (agrees : net.Agrees)
    (connected : net.link = .connected) : Sends net (net.send transport.traced state) := by
  obtain ⟨has_connection, no_listener⟩ := agrees.connected_iff.mp connected
  obtain ⟨connection, is_open⟩ := Option.isSome_iff_exists.mp has_connection
  have flushed := SendQueue.flush_exact (honest.traced connection net.timeout) net.queue.toList
    state
  rw [send_of_connected transport.traced is_open]
  generalize SendQueue.flush (transport.traced.write connection net.timeout) net.queue.toList
    state = result at flushed ⊢
  obtain ⟨done, rest, world, calls⟩ := result
  obtain ⟨done_iff, suffix⟩ := flushed
  refine ⟨?_, ⟨agrees.1, agrees.2, agrees.3⟩, no_listener, ?_, rfl, rfl, suffix⟩
  · cases done with
    | true =>
        have nothing : rest = [] := done_iff.mp rfl
        exact .sent connected (congrArg List.toArray nothing)
    | false =>
        refine .stuck connected ?_
        intro nothing
        exact Bool.false_ne_true (done_iff.mpr (congrArg Array.toList nothing))
  · intro listener waits
    cases no_listener.symm.trans waits

/-- How a dial ends: everything was closed, and nobody answered or the network is connected. -/
inductive Dials (net : Network) : Bool × Network × (σ × List Call) → Prop where
  | refused (world : σ) (earlier : List Call) :
      Dials net (false, net.closed,
        (world, earlier ++ [.dial ⟨net.addresses.target, net.port⟩ none]))
  | answered (connection : ConnectionId) (state : σ × List Call) :
      Dials net (true, net.closed.answered (some connection), state)

theorem dial_dials (transport : Transport σ) (net : Network) (state : σ × List Call) :
    Dials net (net.dial transport.traced state) := by
  unfold dial
  rw [reset_eq transport.traced net state]
  dsimp only [Transport.traced, closed]
  cases (transport.dial ⟨net.addresses.target, net.port⟩ net.timeout _).1 with
  | none => exact .refused _ _
  | some connection => exact .answered connection _

/-- A listener is closed before a dial. -/
theorem dial_unlistens (transport : Transport σ) {listener : ListenerId}
    (waits : net.listener = some listener) (state : σ × List Call) :
    .unlisten listener ∈ (net.dial transport.traced state).2.2.2 := by
  have closes : .unlisten listener ∈ (net.reset transport.traced state).2.2 := by
    rw [reset_traced transport net state.1 state.2, waits]
    simp
  have dialed := (outgoing_lists transport (.unlisten listener)).dials
    ⟨net.addresses.target, net.port⟩ net.timeout closes
  unfold dial
  rw [reset_eq transport.traced net state]
  dsimp only [closed]
  split
  · next answer => rwa [answer] at dialed
  · next answer => rwa [answer] at dialed

theorem answered_agrees (net : Network) (connection : ConnectionId) :
    (net.closed.answered (some connection)).Agrees := by
  constructor <;> simp [closed, answered]

theorem Sends.redial (honest : transport.Honest) (net : Network) (state : σ × List Call) :
    Sends net (net.redial transport.traced state) := by
  have dialed := dial_dials transport net state
  have unlistened (listener : ListenerId) (waits : net.listener = some listener) :=
    dial_unlistens transport waits state
  unfold Network.redial
  generalize net.dial transport.traced state = result at dialed unlistened ⊢
  cases dialed with
  | refused world earlier =>
      exact ⟨.refused rfl earlier rfl, closed_agrees net, rfl, unlistened, rfl, rfl,
        List.suffix_rfl⟩
  | answered connection middle =>
      have sends : Sends _ ((net.closed.answered (some connection)).send transport.traced middle) :=
        .send honest (answered_agrees net connection) rfl
      refine ⟨sends.outcome, sends.agrees, sends.listener, ?_, sends.port, sends.timeout,
        sends.suffix⟩
      intro listener waits
      exact (outgoing_lists transport _).send _ (unlistened listener waits)

/-- One attempt to send, over the open connection or over a new one. -/
theorem Sends.pushOnce (honest : transport.Honest) (agrees : net.Agrees) (state : σ × List Call) :
    Sends net (net.pushOnce transport.traced state) := by
  unfold Network.pushOnce
  cases link : net.link with
  | idle | listening => exact .redial honest net state
  | connected =>
      have sends : Sends net (net.send transport.traced state) := .send honest agrees link
      have no_listener := (agrees.connected_iff.mp link).2
      dsimp only
      generalize net.send transport.traced state = result at sends ⊢
      obtain ⟨done, next, middle⟩ := result
      cases done with
      | true => exact sends
      | false =>
          -- What is left goes out over a new connection, as far as that takes it.
          have again : Sends next (next.redial transport.traced middle) :=
            .redial honest next middle
          refine ⟨again.outcome, again.agrees, again.listener, ?_, again.port.trans sends.port,
            again.timeout.trans sends.timeout, again.suffix.trans sends.suffix⟩
          intro listener waits
          cases no_listener.symm.trans waits

end

/-- What a push says about the bytes that wait. -/
structure Pushed (net : Network) (done : Bool) (last : Network) (calls : List Call) : Prop where
  done_iff : done = true ↔ last.queue = #[] ∧ last.link = .connected
  /-- A push that is repeated until it succeeds never fails. -/
  patient : done = false → last.timeout ≠ longTimeout
  /-- Nobody answered the last dial, or some bytes are left although somebody did. -/
  failed : done = false →
    (last.link = .idle ∧
        ∃ earlier, calls = earlier ++ [.dial ⟨last.addresses.target, last.port⟩ none]) ∨
      (last.link = .connected ∧ last.queue ≠ #[])
  listener : last.listener = none
  unlistened : ∀ listener, net.listener = some listener → .unlisten listener ∈ calls
  port : last.port = net.port
  timeout : last.timeout = net.timeout
  suffix : last.queue.toList <:+ net.queue.toList

section

variable {σ : Type} {transport : Transport σ} {net last : Network}

/-- An attempt after which nothing is tried again. -/
theorem Sends.pushed {done : Bool} {state : σ × List Call} (sends : Sends net (done, last, state))
    (patient : done = false → last.isBlocking = false) : Pushed net done last state.2 := by
  have timeout (failed : done = false) : last.timeout ≠ longTimeout := by
    intro long
    have blocking : last.isBlocking = true := beq_iff_eq.mpr long
    cases blocking.symm.trans (patient failed)
  refine ⟨?_, timeout, ?_, sends.listener, sends.unlistened, sends.port, sends.timeout,
    sends.suffix⟩
  · cases sends.outcome with
    | sent connected nothing => exact iff_of_true rfl ⟨nothing, connected⟩
    | stuck connected some_left =>
        exact iff_of_false Bool.false_ne_true fun whole => some_left whole.1
    | refused idle earlier dialed =>
        refine iff_of_false Bool.false_ne_true fun whole => ?_
        cases idle.symm.trans whole.2
  · intro failed
    cases sends.outcome with
    | sent => cases failed
    | stuck connected some_left => exact .inr ⟨connected, some_left⟩
    | refused idle earlier dialed => exact .inl ⟨idle, earlier, dialed⟩

theorem pushWithin_pushed (honest : transport.Honest) (agrees : net.Agrees) {attempts : Nat}
    {state next : σ × List Call} {done : Bool}
    (pushed : net.pushWithin transport.traced attempts state = (some done, last, next)) :
    Pushed net done last next.2 := by
  induction attempts generalizing net state with
  | zero => cases pushed
  | succ attempts ih =>
      have once : Sends net (net.pushOnce transport.traced state) := .pushOnce honest agrees state
      unfold pushWithin at pushed
      generalize net.pushOnce transport.traced state = result at once pushed
      obtain ⟨sent, between, middle⟩ := result
      cases sent with
      | true =>
          cases pushed
          exact once.pushed fun failed => by cases failed
      | false =>
          dsimp only at pushed
          split at pushed
          · have again := ih once.agrees pushed
            have lists (call : Call) (member : call ∈ middle.2) : call ∈ next.2 := by
              have outgoing := outgoing_lists transport call
              have kept := outgoing.pushWithin attempts between (outgoing.pauses member)
              rwa [pushed] at kept
            exact { again with
              unlistened := fun listener waits => lists _ (once.unlistened listener waits)
              port := again.port.trans once.port
              timeout := again.timeout.trans once.timeout
              suffix := again.suffix.trans once.suffix }
          · next once_only =>
              cases pushed
              exact once.pushed fun _ => Bool.of_not_eq_true once_only

/-- An attempt that is not to be repeated is the only one. -/
theorem pushWithin_answers (honest : transport.Honest) (agrees : net.Agrees)
    (once_only : net.isBlocking = false) (attempts : Nat) (state : σ × List Call) :
    ∃ done, (net.pushWithin transport.traced (attempts + 1) state).1 = some done := by
  have once : Sends net (net.pushOnce transport.traced state) := .pushOnce honest agrees state
  unfold pushWithin
  generalize net.pushOnce transport.traced state = result at once ⊢
  obtain ⟨sent, next, middle⟩ := result
  cases sent with
  | true => exact ⟨true, rfl⟩
  | false =>
      have same : next.isBlocking = net.isBlocking := congrArg (· == longTimeout) once.timeout
      dsimp only
      rw [same, once_only]
      exact ⟨false, rfl⟩

/-- To list the calls of a push alters nothing. -/
theorem push_traced (transport : Transport σ) (net : Network) (world : σ) :
    ∃ calls, net.push transport.traced (world, []) =
      ((net.push transport world).1, (net.push transport world).2.1,
        (net.push transport world).2.2, calls) := by
  have started := traces_refl (Deeds.none : Deeds net.hold [] net.hold) world
  have matched := (traces_parallel transport net.hold []).push started
  generalize net.push transport world = plain at matched ⊢
  generalize net.push transport.traced (world, []) = told at matched ⊢
  obtain @⟨done, last, next, ⟨_, calls⟩, traces⟩ := matched
  obtain rfl := traces.same
  exact ⟨calls, rfl⟩

theorem push_pushed (honest : transport.Honest) (agrees : net.Agrees) {done : Bool}
    {world next : σ} (pushed : net.push transport world = (some done, last, next)) :
    ∃ calls, net.push transport.traced (world, []) = (some done, last, next, calls) ∧
      Pushed net done last calls := by
  obtain ⟨calls, traced⟩ := push_traced transport net world
  rw [pushed] at traced
  exact ⟨calls, traced, pushWithin_pushed honest agrees traced⟩

theorem push_answers (honest : transport.Honest) (agrees : net.Agrees)
    (patient : net.timeout ≠ longTimeout) (world : σ) :
    ∃ done, (net.push transport world).1 = some done := by
  obtain ⟨calls, traced⟩ := push_traced transport net world
  have once_only : net.isBlocking = false := beq_eq_false_iff_ne.mpr patient
  obtain ⟨done, answer⟩ := pushWithin_answers honest agrees once_only (transport.patience world)
    (world, [])
  exact ⟨done, (congrArg Prod.fst traced).symm.trans answer⟩

end

end Network

end TapeNet
