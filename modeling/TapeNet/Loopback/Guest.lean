import TapeNet.Loopback

/-!
# Guests of a loopback world

Peers that are told what to do, step by step.  They listen where the networks
dial, and they dial where the networks listen.
-/

namespace TapeNet

namespace Loopback

/-- Listens on a port; not if something is in the way. -/
def hostBind (world : Loopback) (port : Nat) : Bool × Loopback :=
  match world.bind ⟨world.addresses.target, port⟩ with
  | (some listener, world) => (true, { world with hosts := (port, listener) :: world.hosts })
  | (none, world) => (false, world)

/-- Stops listening on a port; there may be nobody who does. -/
def hostUnbind (world : Loopback) (port : Nat) : Bool × Loopback :=
  match world.hosts.lookup port with
  | some listener =>
    (true, { world.unbind listener with hosts := world.hosts.filter fun host => host.1 != port })
  | none => (false, world)

/-- Makes a connection that of a guest; one that the guest had is closed. -/
def seat (world : Loopback) (guest : Nat) (connection : ConnectionId) : Loopback :=
  let world :=
    match world.guests.lookup guest with
    | some former => world.close former
    | none => world
  { world with
    guests := (guest, connection) :: world.guests.filter fun other => other.1 != guest }

/-- Accepts the oldest connection to a port as that of a guest. -/
def guestAccept (world : Loopback) (port guest : Nat) : Bool × Loopback :=
  match world.hosts.lookup port with
  | none => (false, world)
  | some listener =>
    match world.accept listener with
    | (some connection, world) => (true, world.seat guest connection)
    | (none, world) => (false, world)

/-- Connects a guest to where the networks listen. -/
def guestConnect (world : Loopback) (port guest : Nat) : Bool × Loopback :=
  match world.connect ⟨world.addresses.listen.reachable, port⟩ with
  | (some connection, world) => (true, world.seat guest connection)
  | (none, world) => (false, world)

def guestSend (world : Loopback) (guest : Nat) (bytes : List UInt8) : Bool × Loopback :=
  match world.guests.lookup guest with
  | some connection =>
    if world.isWritable connection then (true, world.deliver connection bytes) else (false, world)
  | none => (false, world)

def guestShutdown (world : Loopback) (guest : Nat) : Loopback :=
  match world.guests.lookup guest with
  | some connection => world.endWriting connection
  | none => world

def guestClose (world : Loopback) (guest : Nat) : Bool × Loopback :=
  match world.guests.lookup guest with
  | some connection =>
    (true,
      { world.close connection with guests := world.guests.filter fun other => other.1 != guest })
  | none => (false, world)

/--
A guest reads up to `count` bytes: what it got, and whether it met the end of
the stream instead of a byte.
-/
def guestReceive (world : Loopback) (guest count : Nat) : (List UInt8 × Bool) × Loopback :=
  match world.guests.lookup guest with
  | some connection =>
    let (bytes, world) := world.takeBytes connection count
    let ended := (world.ends.getD connection default).ended
    ((bytes, ended && decide (bytes.length < count)), world)
  | none => (([], true), world)

end Loopback

end TapeNet
