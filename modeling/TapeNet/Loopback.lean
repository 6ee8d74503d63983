import TapeNet.Network.Transport
import TapeNet.Options

/-!
# A loopback world

Listeners and connections that live in memory.  A connection has two ends;
what is written at one end waits in the inbox of the other until it is read.
Listeners are bound to places, and connecting succeeds as soon as there is a
listener for the place, before anybody accepts.
-/

namespace TapeNet

/-- A listener and the connections that nobody has accepted yet, the oldest first. -/
structure Listener where
  id : ListenerId
  place : Endpoint
  pending : List ConnectionId := []
  deriving DecidableEq

structure LinkEnd where
  partner : ConnectionId
  /-- Everything that the other end has written. -/
  inbox : Array UInt8 := #[]
  /-- How many bytes of the inbox have been read. -/
  taken : Nat := 0
  /-- Whether nothing more will come into the inbox. -/
  ended : Bool := false
  silent : Bool := false
  closed : Bool := false
  deriving DecidableEq, Inhabited

namespace LinkEnd

def waiting (side : LinkEnd) : Nat :=
  side.inbox.size - side.taken

end LinkEnd

/-- What happens to one write. -/
inductive WireWord where
  /-- It takes at most so many bytes. -/
  | atMost (bytes : Nat)
  | fails
  deriving DecidableEq, Repr

/-- The fate of writes to come, and the sizes of those that were made. -/
structure Wire where
  script : List WireWord := []
  sizes : Array Nat := #[]
  /-- Whether writes follow the script and are noted. -/
  live : Bool := false
  deriving Inhabited

/-- Something that a peer does in the background. -/
inductive Visit where
  /-- Listens for one connection, writes, and reads so many bytes or all there are. -/
  | listen (port : Nat) (greeting : List UInt8) (reads : Option Nat)
  /-- Connects as soon as it can, writes, and reads so many bytes or none. -/
  | connect (port : Nat) (greeting : List UInt8) (endsWriting : Bool) (reads : Option Nat)
  deriving DecidableEq

inductive VisitStage where
  | planned
  | bound (listener : ListenerId)
  | talking (connection : ConnectionId)
  deriving DecidableEq

structure Visitor where
  visit : Visit
  stage : VisitStage := .planned
  deriving DecidableEq

/-- What a visitor tells when the visit is over. -/
inductive VisitAccount where
  /-- It wrote and had nothing to read. -/
  | sent
  /-- It read these bytes; `ended` says that it met the end of the stream. -/
  | heard (bytes : List UInt8) (ended : Bool)
  deriving DecidableEq

/-- The state of a loopback world. -/
structure Loopback where
  /-- The addresses of the networks that the peers of this world meet. -/
  addresses : Addresses := {}
  listeners : List Listener := []
  nextListener : ListenerId := 0
  ends : Array LinkEnd := #[]
  wire : Wire := {}
  /-- The places where peers listen, by port. -/
  hosts : List (Nat × ListenerId) := []
  /-- The connections of peers, by the numbers of the peers. -/
  guests : List (Nat × ConnectionId) := []
  /-- Peers in the background; only the first one acts. -/
  visitors : List Visitor := []
  /-- What visitors have told, the last one first. -/
  accounts : List VisitAccount := []
  deriving Inhabited

namespace Loopback

/--
Whether a listener at one place keeps another from being bound to the other
place: the same place does, and on the same port the address for all addresses
and the machine's own address do.
-/
def clash (first second : Endpoint) : Bool :=
  first.port == second.port &&
    (first.address == second.address ||
      (first.address.isAny && first.address.loopback == second.address) ||
      (second.address.isAny && second.address.loopback == first.address))

/-- Binds a listener, unless one that is there already keeps it from being bound. -/
def bind (world : Loopback) (place : Endpoint) : Option ListenerId × Loopback :=
  if world.listeners.any fun listener => clash listener.place place then
    (none, world)
  else
    let id := world.nextListener
    (some id,
      { world with listeners := { id, place } :: world.listeners, nextListener := id + 1 })

/-- Closes an end: it takes no more, and the other end will meet the end of the stream. -/
def close (world : Loopback) (connection : ConnectionId) : Loopback :=
  match world.ends[connection]? with
  | none => world
  | some side =>
    { world with
      ends := (world.ends.modify connection fun side => { side with closed := true }).modify
        side.partner fun other => { other with ended := true } }

def endWriting (world : Loopback) (connection : ConnectionId) : Loopback :=
  match world.ends[connection]? with
  | none => world
  | some side =>
    { world with
      ends := (world.ends.modify connection fun side => { side with silent := true }).modify
        side.partner fun other => { other with ended := true } }

/-- Takes a listener down; connections that nobody has accepted die with it. -/
def unbind (world : Loopback) (listener : ListenerId) : Loopback :=
  match world.listeners.find? fun other => other.id == listener with
  | none => world
  | some found =>
    let world :=
      { world with listeners := world.listeners.filter fun other => other.id != listener }
    found.pending.foldl close world

/-- The listener that a connection to a place reaches. -/
def reached? (world : Loopback) (place : Endpoint) : Option Listener :=
  (world.listeners.find? fun listener => listener.place == place) <|>
    world.listeners.find? fun listener => listener.place == { place with address := place.address.any }

/-- Connects to a place and gives the connecting end. -/
def connect (world : Loopback) (place : Endpoint) : Option ConnectionId × Loopback :=
  match world.reached? place with
  | none => (none, world)
  | some listener =>
    let near := world.ends.size
    let far := near + 1
    (some near,
      { world with
        ends := (world.ends.push { partner := far }).push { partner := near }
        listeners := world.listeners.map fun other =>
          if other.id = listener.id then { other with pending := other.pending ++ [far] } else other })

/-- Takes the oldest connection that waits at a listener, which goes on listening. -/
def accept (world : Loopback) (listener : ListenerId) : Option ConnectionId × Loopback :=
  match world.listeners.find? fun other => other.id == listener with
  | some { pending := oldest :: later, .. } =>
    (some oldest,
      { world with
        listeners := world.listeners.map fun other =>
          if other.id = listener then { other with pending := later } else other })
  | _ => (none, world)

/-- Whether what is written at an end can still reach the other one. -/
def isWritable (world : Loopback) (connection : ConnectionId) : Bool :=
  match world.ends[connection]? with
  | none => false
  | some side => !side.silent && !(world.ends.getD side.partner default).closed

def deliver (world : Loopback) (connection : ConnectionId) (bytes : List UInt8) : Loopback :=
  match world.ends[connection]? with
  | none => world
  | some side =>
    { world with
      ends := world.ends.modify side.partner fun other =>
        { other with inbox := bytes.foldl Array.push other.inbox } }

def takeByte (world : Loopback) (connection : ConnectionId) : Option UInt8 × Loopback :=
  match world.ends[connection]? with
  | none => (none, world)
  | some side =>
    match side.inbox[side.taken]? with
    | none => (none, world)
    | some byte =>
      (some byte,
        { world with
          ends := world.ends.modify connection fun side => { side with taken := side.taken + 1 } })

/-- Takes the next `count` bytes out of an inbox, or as many as there are. -/
def takeBytes (world : Loopback) (connection : ConnectionId) (count : Nat) :
    List UInt8 × Loopback :=
  match world.ends[connection]? with
  | none => ([], world)
  | some side =>
    ((side.inbox.extract side.taken (side.taken + count)).toList,
      { world with
        ends := world.ends.modify connection fun side =>
          { side with taken := min (side.taken + count) side.inbox.size } })

end Loopback

end TapeNet
