import TapeNet.Proofs.Network.Moves

/-!
# The state of the link agrees with what is open

The state of a link is kept beside the listener and the connection, and both
are kept beside what a world has open.  No move lets them differ.  The port
and the timeout are those selected last, whatever happens in between.
-/

namespace TapeNet

/-- What is open in a world. -/
structure Opened where
  listeners : List ListenerId := []
  connections : List ConnectionId := []

/-- What is open behind an event. -/
def Opened.after (opened : Opened) : Event → Opened
  | .listened listener => { opened with listeners := listener :: opened.listeners }
  | .unlistened listener => { opened with listeners := opened.listeners.erase listener }
  | .awaited _ .nobody => opened
  | .awaited listener (.peer connection) =>
    { listeners := opened.listeners.erase listener
      connections := connection :: opened.connections }
  | .awaited listener .failed => { opened with listeners := opened.listeners.erase listener }
  | .dialed connection => { opened with connections := connection :: opened.connections }
  | .hungUp connection => { opened with connections := opened.connections.erase connection }
  | .wrote _ _ => opened

namespace Network

/-- The state of the link says what the network has open. -/
structure Agrees (net : Network) : Prop where
  idle_iff : net.link = .idle ↔ net.listener = none ∧ net.connection = none
  listening_iff : net.link = .listening ↔ net.listener.isSome ∧ net.connection = none
  connected_iff : net.link = .connected ↔ net.connection.isSome ∧ net.listener = none

/-- What a network has open. -/
def opened (net : Network) : Opened :=
  ⟨net.listener.toList, net.connection.toList⟩

theorem closed_agrees (net : Network) : net.closed.Agrees := by
  constructor <;> simp [closed]

theorem fresh_agrees (addresses : Addresses) : (fresh addresses).Agrees := by
  constructor <;> simp [fresh]

/-- A network with a listener has no connection. -/
theorem Agrees.connection_eq {net : Network} (agrees : net.Agrees) {listener : ListenerId}
    (waits : net.listener = some listener) : net.connection = none := by
  have listening := agrees.listening_iff
  have idle := agrees.idle_iff
  have connected := agrees.connected_iff
  cases link : net.link with
  | idle =>
      have nothing := (idle.mp link).1
      rw [waits] at nothing
      cases nothing
  | listening => exact (listening.mp link).2
  | connected =>
      have nothing := (connected.mp link).2
      rw [waits] at nothing
      cases nothing

theorem Agrees.adopt {net : Network} (agrees : net.Agrees) {listener : ListenerId}
    (waits : net.listener = some listener) (arrival : Arrival) : (net.adopt arrival).Agrees := by
  have single := agrees.connection_eq waits
  cases arrival with
  | nobody => exact agrees
  | peer connection => constructor <;> simp [Network.adopt]
  | failed => constructor <;> simp [Network.adopt, single]

theorem opened_closing (net : Network) :
    net.closing.foldl Opened.after net.opened = net.closed.opened := by
  unfold closing opened closed
  cases net.listener with
  | none =>
      cases net.connection with
      | none => rfl
      | some connection => simp [Opened.after]
  | some listener =>
      cases net.connection with
      | none => simp [Opened.after]
      | some connection => simp [Opened.after]

/-- One change keeps the state of the link and what is open in agreement. -/
theorem Change.agrees {net last : Network} {events : List Event} (change : Change net events last)
    (agrees : net.Agrees) : last.Agrees ∧ events.foldl Opened.after net.opened = last.opened := by
  cases change with
  | close => exact ⟨closed_agrees net, opened_closing net⟩
  | dial nothing connection =>
      obtain ⟨no_listener, no_connection⟩ := nothing
      refine ⟨?_, ?_⟩
      · constructor <;> simp [no_listener]
      · simp [opened, Opened.after, no_listener, no_connection]
  | listen nothing listener =>
      obtain ⟨no_listener, no_connection⟩ := nothing
      refine ⟨?_, ?_⟩
      · constructor <;> simp [no_connection]
      · simp [opened, Opened.after, no_listener, no_connection]
  | arrive waits arrival =>
      refine ⟨agrees.adopt waits arrival, ?_⟩
      have single := agrees.connection_eq waits
      cases arrival with
      | nobody => rfl
      | peer connection => simp [opened, Opened.after, Network.adopt, waits, single]
      | failed => simp [opened, Opened.after, Network.adopt, waits, single]
  | write connected queued => exact ⟨⟨agrees.1, agrees.2, agrees.3⟩, rfl⟩

theorem Changes.agrees {net last : Network} {events : List Event}
    (changes : Changes net events last) (agrees : net.Agrees) :
    last.Agrees ∧ events.foldl Opened.after net.opened = last.opened := by
  induction changes with
  | none => exact ⟨agrees, rfl⟩
  | more first _ ih =>
      obtain ⟨between, opened⟩ := first.agrees agrees
      rw [List.foldl_append, opened]
      exact ih between

/-- No change touches the port or the timeout. -/
theorem Change.settings {net last : Network} {events : List Event}
    (change : Change net events last) : last.port = net.port ∧ last.timeout = net.timeout := by
  cases change with
  | arrive waits arrival => cases arrival <;> exact ⟨rfl, rfl⟩
  | close | dial | listen | write => exact ⟨rfl, rfl⟩

theorem Changes.settings {net last : Network} {events : List Event}
    (changes : Changes net events last) : last.port = net.port ∧ last.timeout = net.timeout := by
  induction changes with
  | none => exact ⟨rfl, rfl⟩
  | more first _ ih =>
      obtain ⟨port, timeout⟩ := first.settings
      exact ⟨ih.1.trans port, ih.2.trans timeout⟩

namespace Move.Makes

variable {move : Move} {net last : Network} {events : List Event}

theorem agrees (makes : move.Makes net events last) (agrees : net.Agrees) :
    last.Agrees ∧ events.foldl Opened.after net.opened = last.opened := by
  cases makes with
  | setPort byte =>
      have closed := closed_agrees net
      exact ⟨⟨closed.1, closed.2, closed.3⟩, opened_closing net⟩
  | setTimeout byte => exact ⟨⟨agrees.1, agrees.2, agrees.3⟩, rfl⟩
  | enqueue byte => exact ⟨⟨agrees.1, agrees.2, agrees.3⟩, rfl⟩
  | other uses changes => exact changes.agrees agrees

/-- The port is the one that the move selects, or else the one before. -/
theorem port_eq (makes : move.Makes net events last) :
    last.port = move.portByte?.elim net.port portOf := by
  cases makes with
  | setPort | setTimeout | enqueue => rfl
  | other uses changes =>
      rw [uses.port]
      exact changes.settings.1

/-- The timeout is the one that the move selects, or else the one before. -/
theorem timeout_eq (makes : move.Makes net events last) :
    last.timeout = move.timeoutByte?.elim net.timeout timeoutOf := by
  cases makes with
  | setPort | setTimeout | enqueue => rfl
  | other uses changes =>
      rw [uses.timeout]
      exact changes.settings.2

end Move.Makes

/-- The byte that the port was last selected with. -/
def lastPort (moves : List Move) : Option UInt8 :=
  (moves.filterMap Move.portByte?).getLast?

/-- The byte that the timeout was last selected with. -/
def lastTimeout (moves : List Move) : Option UInt8 :=
  (moves.filterMap Move.timeoutByte?).getLast?

/-- What was selected last is what was selected last behind the first move, or else by it. -/
theorem getLast?_filterMap_cons {α : Type} (select : Move → Option UInt8) (value : UInt8 → α)
    (before : α) (move : Move) (moves : List Move) :
    ((move :: moves).filterMap select).getLast?.elim before value =
      (moves.filterMap select).getLast?.elim ((select move).elim before value) value := by
  cases selected : select move with
  | none => rw [List.filterMap_cons_none selected]; rfl
  | some byte =>
      rw [List.filterMap_cons_some selected, List.getLast?_cons]
      cases (moves.filterMap select).getLast? with
      | none | some last => rfl

theorem timeoutOf_ne_zero (byte : UInt8) : timeoutOf byte ≠ 0 := by
  unfold timeoutOf
  split
  · decide
  · next other =>
      have positive : byte.toNat ≠ 0 := fun none_left => other (UInt8.toNat_inj.mp none_left)
      exact Nat.mul_ne_zero (by decide) positive

/-- Only the byte 0 selects the longest timeout; no other byte selects one as long. -/
theorem timeoutOf_eq_longTimeout_iff (byte : UInt8) : timeoutOf byte = longTimeout ↔ byte = 0 := by
  unfold timeoutOf
  constructor
  · intro long
    split at long
    · assumption
    · have small := byte.toNat_lt
      simp only [timeoutUnit, longTimeout] at long
      omega
  · intro zero
    rw [if_pos zero]

section

variable {σ : Type} (transport : Transport σ)

theorem play_agrees (moves : List Move) {net : Network} (world : σ) (agrees : net.Agrees) :
    (play transport moves net world).1.Agrees ∧
      ((history transport moves net world).flatMap Turn.events).foldl Opened.after net.opened =
        (play transport moves net world).1.opened := by
  induction moves generalizing net world with
  | nil => exact ⟨agrees, rfl⟩
  | cons move moves ih =>
      obtain ⟨between, opened⟩ := (move.makes transport net world).agrees agrees
      simp only [history, play, List.flatMap_cons, List.foldl_append, opened]
      exact ih _ between

theorem play_port (moves : List Move) (net : Network) (world : σ) :
    (play transport moves net world).1.port = (lastPort moves).elim net.port portOf := by
  induction moves generalizing net world with
  | nil => rfl
  | cons move moves ih =>
      rw [lastPort, getLast?_filterMap_cons, ← (move.makes transport net world).port_eq]
      exact ih _ _

theorem play_timeout (moves : List Move) (net : Network) (world : σ) :
    (play transport moves net world).1.timeout =
      (lastTimeout moves).elim net.timeout timeoutOf := by
  induction moves generalizing net world with
  | nil => rfl
  | cons move moves ih =>
      rw [lastTimeout, getLast?_filterMap_cons, ← (move.makes transport net world).timeout_eq]
      exact ih _ _

/-- What holds of a network behind any moves. -/
structure Consistent (moves : List Move) (turns : List Turn) (net : Network) : Prop where
  agrees : net.Agrees
  /-- What the world has open, according to a record, is what the network has open. -/
  opened_eq : (turns.flatMap Turn.events).foldl Opened.after {} = net.opened
  port_eq : net.port = 42000 + (lastPort moves).elim 0 UInt8.toNat
  timeout_eq : net.timeout = (lastTimeout moves).elim 5000 timeoutOf
  timeout_ne_zero : net.timeout ≠ 0
  isBlocking_iff : net.isBlocking = true ↔ lastTimeout moves = some 0
  port_kept : ∀ (move : Move) (world : σ), move.portByte? = none →
    (move.make transport net world).1.port = net.port
  timeout_kept : ∀ (move : Move) (world : σ), move.timeoutByte? = none →
    (move.make transport net world).1.timeout = net.timeout

/--
Behind any moves, the state of the link says what is open, and the port and
the timeout are those that were selected last.
-/
theorem play_consistent (addresses : Addresses) (world : σ) (moves : List Move) :
    Consistent transport moves (history transport moves (fresh addresses) world)
      (play transport moves (fresh addresses) world).1 := by
  obtain ⟨agrees, opened⟩ := play_agrees transport moves world (fresh_agrees addresses)
  have port := play_port transport moves (fresh addresses) world
  have timeout := play_timeout transport moves (fresh addresses) world
  refine ⟨agrees, opened, ?_, timeout, ?_, ?_, ?_, ?_⟩
  · rw [port]
    cases lastPort moves with
    | none | some byte => rfl
  · rw [timeout]
    cases lastTimeout moves with
    | none => exact (by decide : defaultTimeout ≠ 0)
    | some byte => exact timeoutOf_ne_zero byte
  · rw [isBlocking, timeout, beq_iff_eq]
    cases lastTimeout moves with
    | none => exact (by decide : defaultTimeout = longTimeout ↔ (none : Option UInt8) = some 0)
    | some byte =>
        rw [Option.some.injEq]
        exact timeoutOf_eq_longTimeout_iff byte
  · intro move next unselected
    rw [(move.makes transport _ next).port_eq, unselected]
    rfl
  · intro move next unselected
    rw [(move.makes transport _ next).timeout_eq, unselected]
    rfl

end

end Network

end TapeNet
