import TapeNet.Address

/-!
# Transports

What the outside world offers to a network.  The world has a state of its own,
about which nothing is assumed: every operation may succeed or fail in every
state, so a statement about all transports covers every behaviour of peers.
-/

namespace TapeNet

/-- The name of a listener in its world. -/
abbrev ListenerId := Nat

/-- The name of one side of a connection in its world. -/
abbrev ConnectionId := Nat

/-- What has become of a listener that accepts a single peer. -/
inductive Arrival where
  /-- Nobody came; the listener goes on. -/
  | nobody
  /-- A peer was accepted; the listener is gone. -/
  | peer (connection : ConnectionId)
  /-- Accepting failed; the listener is gone. -/
  | failed
  deriving DecidableEq, Repr

/-- The operations of a world with states in `σ`; times are in milliseconds. -/
structure Transport (σ : Type) where
  /-- Binds a listener that accepts one peer. -/
  listen : Endpoint → σ → Option ListenerId × σ
  /-- Takes a listener down and frees its place. -/
  unlisten : ListenerId → σ → σ
  /-- Looks whether a listener has accepted somebody. -/
  poll : ListenerId → σ → Arrival × σ
  /-- Waits for the given time until a listener has accepted somebody. -/
  await : ListenerId → Nat → σ → Arrival × σ
  dial : Endpoint → Nat → σ → Option ConnectionId × σ
  hangUp : ConnectionId → σ → σ
  /-- Offers bytes to a connection; a success tells how many of them, from the first on, it took. -/
  write : ConnectionId → Nat → List UInt8 → σ → Option Nat × σ
  /-- Takes a byte from a connection, waiting for one no longer than the given time. -/
  read : ConnectionId → Nat → σ → Option UInt8 × σ
  /-- Waits a little before something is tried again. -/
  pause : σ → σ
  /-- How often something is tried again before it counts as unanswered for ever. -/
  patience : σ → Nat

namespace Transport

/-- No write takes more than it was offered. -/
def Honest {σ : Type} (transport : Transport σ) : Prop :=
  ∀ connection time bytes world taken world',
    transport.write connection time bytes world = (some taken, world') → taken ≤ bytes.length

end Transport

end TapeNet
