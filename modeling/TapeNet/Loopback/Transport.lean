import TapeNet.Loopback.Visitor

/-!
# The loopback world as a transport

A network's reads and waits take no time here: what could happen meanwhile is
what the visitors do, and they do it at once.
-/

namespace TapeNet

namespace Loopback

/-- What has become of a network's listener; once it has accepted a peer it is gone. -/
def arrival (world : Loopback) (listener : ListenerId) : Arrival × Loopback :=
  match world.accept listener with
  | (some connection, world) => (.peer connection, world.unbind listener)
  | (none, world) => (.nobody, world)

/-- Writes as far as the other end allows it. -/
def writeUpTo (world : Loopback) (connection : ConnectionId) (bytes : List UInt8) (limit : Nat) :
    Option Nat × Loopback :=
  if world.isWritable connection then
    let bytes := bytes.take limit
    (some bytes.length, world.deliver connection bytes)
  else
    (none, world)

/-- Writes as the wire's script has it. -/
def write (world : Loopback) (connection : ConnectionId) (bytes : List UInt8) :
    Option Nat × Loopback :=
  if world.wire.live then
    let world := { world with wire.sizes := world.wire.sizes.push bytes.length }
    match world.wire.script with
    | [] => world.writeUpTo connection bytes bytes.length
    | word :: script =>
      let world := { world with wire.script := script }
      match word with
      | .fails => (none, world)
      | .atMost 0 => (some 0, world)
      | .atMost limit => world.writeUpTo connection bytes limit
  else
    world.writeUpTo connection bytes bytes.length

/-- Reads a byte, and gives the visitors a turn if there is none. -/
def read (world : Loopback) (connection : ConnectionId) : Option UInt8 × Loopback :=
  match world.takeByte connection with
  | (some byte, world) => (some byte, world)
  | (none, world) => world.attend.takeByte connection

def transport : Transport Loopback where
  listen place world := world.bind place
  unlisten listener world := world.unbind listener
  poll listener world := world.arrival listener
  await listener _ world := world.attend.arrival listener
  dial place _ world := world.connect place
  hangUp connection world := world.close connection
  write connection _ bytes world := world.write connection bytes
  read connection _ world := world.read connection
  pause world := world.attend
  patience world := 3 * world.visitors.length + 3

/-- Lets the wire's script decide about writes, or not. -/
def setWire (world : Loopback) (live : Bool) : Loopback :=
  { world with wire.live := live }

/-- Gives the wire a new script and forgets the sizes that were noted. -/
def scriptWire (world : Loopback) (script : List WireWord) : Loopback :=
  { world with wire.script := script, wire.sizes := #[] }

end Loopback

end TapeNet
