import TapeNet.Network.SendQueue
import TapeNet.Network.Transport
import TapeNet.Options

/-!
# The network of a program

A network has at most one link: it listens for a single peer, or it is
connected to one, or it is idle.  Links are opened and closed as sending and
receiving need them; choosing a port closes the link and drops the bytes that
wait to be sent.  With the longest timeout, sending and receiving are repeated
until they succeed.

The state of the link is kept beside what is open.  Operations set the two one
after the other; that they always agree is a theorem about the operations.
-/

namespace TapeNet

/-- The state of a network's link. -/
inductive Link where
  | idle
  | listening
  | connected
  deriving DecidableEq, Repr, Inhabited

namespace Link

def word : Link → String
  | idle => "Idle"
  | listening => "Listening"
  | connected => "Connected"

end Link

/-- A network: its addresses, its link and what it has open, the settings and bytes for sending. -/
structure Network where
  addresses : Addresses := {}
  link : Link := .idle
  listener : Option ListenerId := none
  connection : Option ConnectionId := none
  port : Nat := 42000
  /-- The time that one attempt may take, in milliseconds. -/
  timeout : Nat := 5000
  /-- The bytes that wait to be sent. -/
  queue : Array UInt8 := #[]
  deriving Inhabited

namespace Network

/-- The port that the byte 0 selects. -/
def basePort : Nat := 42000

/-- The timeout that the byte 0 selects; with it, attempts are repeated until one succeeds. -/
def longTimeout : Nat := 60000

/-- The timeout that the byte 1 selects. -/
def timeoutUnit : Nat := 100

def defaultTimeout : Nat := 5000

def portOf (byte : UInt8) : Nat :=
  basePort + byte.toNat

def timeoutOf (byte : UInt8) : Nat :=
  if byte = 0 then longTimeout else timeoutUnit * byte.toNat

/-- A time as it is shown: in seconds with at most one decimal, below one second in milliseconds. -/
def timeText (milliseconds : Nat) : String :=
  if milliseconds < 1000 then
    toString milliseconds ++ "ms"
  else if milliseconds % 1000 = 0 then
    toString (milliseconds / 1000) ++ "s"
  else
    toString (milliseconds / 1000) ++ "." ++ toString (milliseconds % 1000 / 100) ++ "s"

def fresh (addresses : Addresses) : Network :=
  { addresses, port := basePort, timeout := defaultTimeout }

/-- Whether sending and receiving are repeated until they succeed. -/
def isBlocking (net : Network) : Bool :=
  net.timeout == longTimeout

def outline (net : Network) : Outline :=
  .fields "Network"
    [("state", .word net.link.word), ("port", .number net.port),
      ("timeout", .word (timeText net.timeout)), ("queued", .number net.queue.size)]
    false

def setTimeout (net : Network) (byte : UInt8) : Network :=
  { net with timeout := timeoutOf byte }

/-- Puts a byte behind those that wait to be sent. -/
def enqueue (net : Network) (byte : UInt8) : Network :=
  { net with queue := net.queue.push byte }

section Transported

variable {σ : Type} (transport : Transport σ)

/-- Closes whatever is open and keeps the bytes that wait to be sent. -/
def reset (net : Network) (world : σ) : Network × σ :=
  let world :=
    match net.listener with
    | some listener => transport.unlisten listener world
    | none => world
  let world :=
    match net.connection with
    | some connection => transport.hangUp connection world
    | none => world
  ({ net with link := .idle, listener := none, connection := none }, world)

/-- Selects a port; closes whatever is open and drops the bytes that wait to be sent. -/
def setPort (net : Network) (byte : UInt8) (world : σ) : Network × σ :=
  let (net, world) := net.reset transport world
  ({ net with port := portOf byte, queue := #[] }, world)

/-- What the end of a listener's wait makes of a network: it hands over a connection, or fails. -/
def adopt (net : Network) : Arrival → Network
  | .nobody => net
  | .peer connection =>
    { net with listener := none, connection := some connection, link := .connected }
  | .failed => { net with listener := none, link := .idle }

/--
What happens in the background: a listener that has accepted a peer hands the
connection over and is gone.
-/
def settle (net : Network) (world : σ) : Network × σ :=
  match net.listener with
  | some listener =>
    let (arrival, world) := transport.poll listener world
    (net.adopt arrival, world)
  | none => (net, world)

/-- Closes whatever is open and dials, and says whether somebody answered. -/
def dial (net : Network) (world : σ) : Bool × Network × σ :=
  let (net, world) := net.reset transport world
  match transport.dial ⟨net.addresses.target, net.port⟩ net.timeout world with
  | (none, world) => (false, net, world)
  | (some connection, world) =>
    (true, { net with connection := some connection, link := .connected }, world)

/-- Closes whatever is open and starts to listen, and says whether that was possible. -/
def listen (net : Network) (world : σ) : Bool × Network × σ :=
  let (net, world) := net.reset transport world
  match transport.listen ⟨net.addresses.listen, net.port⟩ world with
  | (none, world) => (false, net, world)
  | (some listener, world) =>
    (true, { net with listener := some listener, link := .listening }, world)

/-- Sends the waiting bytes over the open connection and says whether all of them went out. -/
def send (net : Network) (world : σ) : Bool × Network × σ :=
  match net.connection with
  | none => (false, net, world)
  | some connection =>
    let (done, rest, world) :=
      SendQueue.flush (transport.write connection net.timeout) net.queue.toList world
    (done, { net with queue := rest.toArray }, world)

/-- Dials, and sends the waiting bytes if somebody answers. -/
def redial (net : Network) (world : σ) : Bool × Network × σ :=
  match net.dial transport world with
  | (false, net, world) => (false, net, world)
  | (true, net, world) => net.send transport world

/-- Sends the waiting bytes once: over the connection that is open, or else over a new one. -/
def pushOnce (net : Network) (world : σ) : Bool × Network × σ :=
  match net.link with
  | .connected =>
    match net.send transport world with
    | (true, net, world) => (true, net, world)
    | (false, net, world) => net.redial transport world
  | .idle | .listening => net.redial transport world

/-- Sends the waiting bytes, in at most `attempts` attempts; no answer if these were too few. -/
def pushWithin : Nat → Network → σ → Option Bool × Network × σ
  | 0, net, world => (none, net, world)
  | attempts + 1, net, world =>
    match net.pushOnce transport world with
    | (true, net, world) => (some true, net, world)
    | (false, net, world) =>
      if net.isBlocking then
        pushWithin attempts net (transport.pause world)
      else
        (some false, net, world)

/-- Sends the waiting bytes and says whether all of them went out. -/
def push (net : Network) (world : σ) : Option Bool × Network × σ :=
  pushWithin transport (transport.patience world + 1) net world

/-- The next byte of the open connection, if there is one. -/
def readByte (net : Network) (world : σ) : Option UInt8 × σ :=
  match net.connection with
  | none => (none, world)
  | some connection => transport.read connection net.timeout world

/-- Takes a byte from the open connection; one that gives none is closed. -/
def take (net : Network) (world : σ) : Option UInt8 × Network × σ :=
  match net.readByte transport world with
  | (some byte, world) => (some byte, net, world)
  | (none, world) => (none, net.reset transport world)

/--
The first part of receiving a byte: an open connection is tried, and if it
gives nothing, or nothing was open, a listener is set up.
-/
def approach (net : Network) (world : σ) : Option UInt8 × Network × σ :=
  match net.link with
  | .connected =>
    match net.take transport world with
    | (some byte, net, world) => (some byte, net, world)
    | (none, net, world) => (none, (net.listen transport world).2)
  | .idle => (none, (net.listen transport world).2)
  | .listening => (none, net, world)

/-- The last part of receiving a byte: takes one from a peer that has come. -/
def collect (net : Network) (world : σ) : Option UInt8 × Network × σ :=
  match net.link with
  | .connected => net.take transport world
  | .idle | .listening => (none, net, world)

/--
Waits for a peer at the listener and takes a byte from it.  A peer that comes
just after the wait is over is connected, but nothing is taken from it.
-/
def meet (net : Network) (world : σ) : Option UInt8 × Network × σ :=
  match net.listener with
  | none => (none, net, world)
  | some listener =>
    match transport.await listener net.timeout world with
    | (.nobody, world) => (none, net.settle transport world)
    | (arrival, world) => (net.adopt arrival).collect transport world

/--
Receives a byte once.  An open connection is tried first; if it gives nothing,
or nothing was open, a peer is waited for.
-/
def receiveOnce (net : Network) (world : σ) : Option UInt8 × Network × σ :=
  match net.approach transport world with
  | (some byte, net, world) => (some byte, net, world)
  | (none, net, world) => net.meet transport world

/--
Receives a byte, in at most `attempts` attempts; no answer if these were too
few.  A peer may come during the pause between two attempts.
-/
def receiveWithin : Nat → Network → σ → Option UInt8 × Network × σ
  | 0, net, world => (none, net, world)
  | attempts + 1, net, world =>
    match net.receiveOnce transport world with
    | (some byte, net, world) => (some byte, net, world)
    | (none, net, world) =>
      if net.isBlocking then
        let (net, world) := net.settle transport (transport.pause world)
        receiveWithin attempts net world
      else
        (some 0, net, world)

/-- Receives a byte; zero stands for none. -/
def receive (net : Network) (world : σ) : Option UInt8 × Network × σ :=
  receiveWithin transport (transport.patience world + 1) net world

end Transported

end Network

end TapeNet
