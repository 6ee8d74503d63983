import Mathlib.Logic.Function.Basic
import TapeNet.Proofs.Threads.Section

/-!
# The threads around a network

Every listener has an acceptor, a thread of its own that owns the socket.  It
signals that it is ready, accepts one connection and publishes it, unless it
is cancelled.  It looks for that three times: behind the accept, before every
attempt to get the lock, and once more with the lock.  It never waits for the
lock, since whoever holds it may be waiting for the acceptor.

The program holds the lock throughout a section.  To set up a listener it
waits until the acceptor is ready; to take one down it cancels the acceptor,
wakes it by connecting to its port, and waits until its thread has ended.
-/

namespace TapeNet

open Network

namespace Threads

/-- One who connects to a listener: a peer, or the program, which wakes the acceptor. -/
structure Caller where
  connection : ConnectionId
  wakes : Bool := false
  deriving DecidableEq

/-- Where an acceptor stands, with whom it has accepted; nobody if accepting failed. -/
inductive Phase where
  /-- Its socket is bound, and it is about to signal that it is ready. -/
  | starting
  | accepting
  /-- It is about to look for the first time whether it is cancelled. -/
  | accepted (caller : Option Caller)
  /-- It is about to look before it tries to get the lock. -/
  | spinning (caller : Option Caller)
  | trying (caller : Option Caller)
  /-- It has the lock and is about to look for the last time. -/
  | holding (caller : Option Caller)
  | publishing (caller : Option Caller)
  /-- It still has the lock, with nothing left to do under it. -/
  | releasing
  /-- Its thread ends, and the socket is still bound. -/
  | leaving
  /-- Its thread has ended and the socket is closed, or it was never there. -/
  | gone
  deriving DecidableEq

namespace Phase

/-- The socket is bound. -/
@[simp]
def isBound : Phase → Bool
  | gone => false
  | _ => true

@[simp]
def holdsLock : Phase → Bool
  | holding _ | publishing _ | releasing => true
  | _ => false

/-- Something may still be published. -/
@[simp]
def isOpen : Phase → Bool
  | releasing | leaving | gone => false
  | _ => true

/-- Who has been accepted and not been published yet. -/
@[simp]
def caller? : Phase → Option Caller
  | accepted caller | spinning caller | trying caller | holding caller | publishing caller => caller
  | _ => none

/-- Where it goes on after it has looked, and where it goes if it is cancelled. -/
@[simp]
def look? : Phase → Option (Phase × Phase)
  | accepted caller => some (spinning caller, leaving)
  | spinning caller => some (trying caller, leaving)
  | holding caller => some (publishing caller, releasing)
  | _ => none

/-- What is handed over by publishing. -/
@[simp]
def arrival : Phase → Arrival
  | publishing (some caller) => .peer caller.connection
  | publishing none => .failed
  | _ => .nobody

theorem isBound_of_ne {phase : Phase} (present : phase ≠ .gone) : phase.isBound = true := by
  cases phase with
  | gone => contradiction
  | starting | accepting | accepted | spinning | trying | holding | publishing | releasing
  | leaving => rfl

end Phase

/-- An acceptor, the flag that cancels it, and those who wait at its socket. -/
structure Acceptor where
  port : Nat := 0
  phase : Phase := .gone
  cancelled : Bool := false
  backlog : List Caller := []

/-- Whoever holds the lock. -/
inductive Holder where
  | program
  | acceptor (listener : ListenerId)
  deriving DecidableEq

/-- What an acceptor does. -/
inductive Act where
  | accept
  | fail
  | look
  | miss
  | seize
  | publish
  | release
  | close
  deriving DecidableEq

namespace Act

/-- An attempt to get the lock succeeds exactly if it is free. -/
@[simp]
def Free (holder : Option Holder) : Act → Prop
  | seize => holder = none
  | miss => holder ≠ none
  | accept | fail | look | publish | release | close => True

/-- Who holds the lock behind an act. -/
@[simp]
def locks (listener : ListenerId) (holder : Option Holder) : Act → Option Holder
  | seize => some (.acceptor listener)
  | release => none
  | accept | fail | look | miss | publish | close => holder

end Act

namespace Acceptor

/-- Somebody connects to the socket. -/
@[simp]
def calledBy (acceptor : Acceptor) (caller : Caller) : Acceptor :=
  { acceptor with backlog := acceptor.backlog ++ [caller] }

/-- All who wait at the socket, or have been accepted and not been published yet. -/
def callers (acceptor : Acceptor) : List Caller :=
  acceptor.phase.caller?.toList ++ acceptor.backlog

/-- What is handed over in an act. -/
@[simp]
def hands (acceptor : Acceptor) : Act → Arrival
  | .publish => acceptor.phase.arrival
  | .accept | .fail | .look | .miss | .seize | .release | .close => .nobody

/-- What an acceptor can do, and what that makes of it. -/
inductive Acts (acceptor : Acceptor) : Act → Acceptor → Prop where
  | accept (waits : acceptor.phase = .accepting) {caller : Caller} {rest : List Caller}
      (first : acceptor.backlog = caller :: rest) :
      Acts acceptor .accept { acceptor with phase := .accepted (some caller), backlog := rest }
  | fail (waits : acceptor.phase = .accepting) :
      Acts acceptor .fail { acceptor with phase := .accepted none }
  | look {on off : Phase} (looks : acceptor.phase.look? = some (on, off)) :
      Acts acceptor .look { acceptor with phase := if acceptor.cancelled then off else on }
  | miss {caller : Option Caller} (tries : acceptor.phase = .trying caller) :
      Acts acceptor .miss { acceptor with phase := .spinning caller }
  | seize {caller : Option Caller} (tries : acceptor.phase = .trying caller) :
      Acts acceptor .seize { acceptor with phase := .holding caller }
  | publish {caller : Option Caller} (publishes : acceptor.phase = .publishing caller) :
      Acts acceptor .publish { acceptor with phase := .releasing }
  | release (done : acceptor.phase = .releasing) :
      Acts acceptor .release { acceptor with phase := .leaving }
  | close (ends : acceptor.phase = .leaving) :
      Acts acceptor .close { acceptor with phase := .gone }

end Acceptor

/-- Where the program stands; the calls of a section include the one that it is making. -/
inductive Program where
  | outside
  | within (part : Section)
  /-- It waits until a new acceptor is ready. -/
  | starting (part : Section) (listener : ListenerId)
  /-- It is about to connect to a cancelled acceptor, and if that fails some more times. -/
  | waking (part : Section) (listener : ListenerId) (attempts : Nat)
  /-- It waits until the thread of a cancelled acceptor has ended. -/
  | joining (part : Section) (listener : ListenerId)

namespace Program

/-- The section that the program is in. -/
@[simp]
def part? : Program → Option Section
  | outside => none
  | within part | starting part _ | waking part _ _ | joining part _ => some part

/-- The acceptor whose signal the program waits for. -/
@[simp]
def starts? : Program → Option ListenerId
  | starting _ listener => some listener
  | _ => none

/-- The acceptor that the program takes down. -/
@[simp]
def stops? : Program → Option ListenerId
  | waking _ listener _ | joining _ listener => some listener
  | _ => none

/-- The acceptor whose end the program waits for. -/
@[simp]
def joins? : Program → Option ListenerId
  | joining _ listener => some listener
  | _ => none

end Program

end Threads

open Threads

/-- A network with the program and all acceptors ever spawned, numbered in this order. -/
structure Threads where
  net : Network
  holder : Option Holder := none
  program : Program := .outside
  acceptors : ListenerId → Acceptor := fun _ => {}
  spawned : Nat := 0

namespace Threads

def start (addresses : Addresses) : Threads :=
  { net := fresh addresses }

/-- The threads with another acceptor in the place of one. -/
def put (threads : Threads) (listener : ListenerId) (acceptor : Acceptor) : Threads :=
  { threads with acceptors := Function.update threads.acceptors listener acceptor }

section

variable (threads : Threads) (listener : ListenerId) (acceptor : Acceptor)

@[simp]
theorem put_net : (threads.put listener acceptor).net = threads.net :=
  rfl

@[simp]
theorem put_holder : (threads.put listener acceptor).holder = threads.holder :=
  rfl

@[simp]
theorem put_program : (threads.put listener acceptor).program = threads.program :=
  rfl

@[simp]
theorem put_spawned : (threads.put listener acceptor).spawned = threads.spawned :=
  rfl

@[simp]
theorem put_self : (threads.put listener acceptor).acceptors listener = acceptor :=
  Function.update_self _ _ _

theorem put_same : threads.put listener (threads.acceptors listener) = threads := by
  rw [put, Function.update_eq_self]

theorem put_put (another : Acceptor) :
    (threads.put listener acceptor).put listener another = threads.put listener another := by
  rw [put, put, put, Function.update_idem]

theorem put_of_ne {other : ListenerId} (different : other ≠ listener) :
    (threads.put listener acceptor).acceptors other = threads.acceptors other :=
  Function.update_of_ne different _ _

end

/-- What holds of an acceptor in its place and of the others holds of all. -/
theorem forall_put {threads : Threads} (Holds : ListenerId → Acceptor → Prop)
    {listener : ListenerId} {acceptor : Acceptor} (here : Holds listener acceptor)
    (elsewhere : ∀ other ≠ listener, Holds other (threads.acceptors other)) :
    ∀ other, Holds other ((threads.put listener acceptor).acceptors other) := by
  intro other
  by_cases same : other = listener
  · rw [same, put_self]
    exact here
  · rw [put_of_ne _ _ _ same]
    exact elsewhere other same

/-- The listener that the program tracks: that of the network, and in a section what it is now. -/
def tracked (threads : Threads) : Option ListenerId :=
  threads.net.tracking (threads.program.part?.elim [] Section.calls)

/-- No socket of an acceptor is bound to the port. -/
def Vacant (threads : Threads) (port : Nat) : Prop :=
  ∀ listener, (threads.acceptors listener).phase.isBound = true →
    (threads.acceptors listener).port ≠ port

/-- How often the program tries to wake an acceptor. -/
def wakeAttempts : Nat := 3

/-- What happens: something that the program does, or a peer, or an acceptor. -/
inductive Action where
  | enter (move : Move)
  | call (call : Call)
  | bind (listener : ListenerId)
  | ready (listener : ListenerId)
  | cancel (listener : ListenerId)
  /-- The connection that wakes an acceptor reaches a socket. -/
  | wake (listener reached : ListenerId)
  /-- The connection that wakes an acceptor reaches somebody else at its port. -/
  | stray (listener : ListenerId)
  /-- The connection that wakes an acceptor fails, though its socket may be bound. -/
  | unwoken (listener : ListenerId) (bound : Bool)
  | join (listener : ListenerId)
  | leave (move : Move)
  | visit (listener : ListenerId) (connection : ConnectionId)
  | act (listener : ListenerId) (act : Act)
  deriving DecidableEq

/-- What can happen, and what it makes of the threads. -/
inductive Step (threads : Threads) : Action → Threads → Prop where
  | enter {move : Move} (locked : move.isLocked = true) (outside : threads.program = .outside)
      (free : threads.holder = none) :
      Step threads (.enter move)
        { threads with holder := some .program, program := .within { move } }
  | call {part : Section} (within : threads.program = .within part) {call : Call}
      (plain : call.isPlain = true) (legal : (part.after call).Legal threads.net) :
      Step threads (.call call) { threads with program := .within (part.after call) }
  | bind {part : Section} (within : threads.program = .within part) {place : Endpoint}
      (legal : (part.after (.listen place (some threads.spawned))).Legal threads.net)
      (vacant : threads.Vacant place.port) :
      Step threads (.bind threads.spawned)
        { threads.put threads.spawned { port := place.port, phase := .starting } with
          program := .starting (part.after (.listen place (some threads.spawned))) threads.spawned
          spawned := threads.spawned + 1 }
  | ready {part : Section} {listener : ListenerId}
      (starts : threads.program = .starting part listener)
      (signals : (threads.acceptors listener).phase = .starting) :
      Step threads (.ready listener)
        { threads.put listener { threads.acceptors listener with phase := .accepting } with
          program := .within part }
  | cancel {part : Section} (within : threads.program = .within part) {listener : ListenerId}
      (legal : (part.after (.unlisten listener)).Legal threads.net) :
      Step threads (.cancel listener)
        { threads.put listener { threads.acceptors listener with cancelled := true } with
          program := .waking (part.after (.unlisten listener)) listener (wakeAttempts - 1) }
  | wake {part : Section} {listener : ListenerId} {attempts : Nat}
      (wakes : threads.program = .waking part listener attempts) {reached : ListenerId}
      (bound : (threads.acceptors reached).phase.isBound = true)
      (same : (threads.acceptors reached).port = (threads.acceptors listener).port)
      (connection : ConnectionId) :
      Step threads (.wake listener reached)
        { threads.put reached ((threads.acceptors reached).calledBy ⟨connection, true⟩) with
          program := .joining part listener }
  | stray {part : Section} {listener : ListenerId} {attempts : Nat}
      (wakes : threads.program = .waking part listener attempts)
      (vacant : threads.Vacant (threads.acceptors listener).port) :
      Step threads (.stray listener) { threads with program := .joining part listener }
  | retry {part : Section} {listener : ListenerId} {attempts : Nat}
      (wakes : threads.program = .waking part listener (attempts + 1)) :
      Step threads (.unwoken listener (threads.acceptors listener).phase.isBound)
        { threads with program := .waking part listener attempts }
  /-- The connection was refused, or it was the last attempt. -/
  | giveUp {part : Section} {listener : ListenerId} {attempts : Nat}
      (wakes : threads.program = .waking part listener attempts) :
      Step threads (.unwoken listener (threads.acceptors listener).phase.isBound)
        { threads with program := .within part }
  | join {part : Section} {listener : ListenerId}
      (joins : threads.program = .joining part listener)
      (ended : (threads.acceptors listener).phase = .gone) :
      Step threads (.join listener) { threads with program := .within part }
  | leave {part : Section} (within : threads.program = .within part) {last : Network}
      (plays : Plays threads.net part.move part.calls last) :
      Step threads (.leave part.move)
        { threads with net := last, holder := none, program := .outside }
  | visit {listener : ListenerId} (bound : (threads.acceptors listener).phase.isBound = true)
      (connection : ConnectionId) :
      Step threads (.visit listener connection)
        (threads.put listener ((threads.acceptors listener).calledBy { connection }))
  | act {listener : ListenerId} {act : Act} {acceptor : Acceptor}
      (acts : (threads.acceptors listener).Acts act acceptor) (free : act.Free threads.holder) :
      Step threads (.act listener act)
        { threads.put listener acceptor with
          net := threads.net.adopt ((threads.acceptors listener).hands act)
          holder := act.locks listener threads.holder }

/-- What happens one after the other. -/
inductive Run (first : Threads) : List Action → Threads → Prop where
  | none : Run first [] first
  | more {actions : List Action} {threads next : Threads} {action : Action}
      (run : Run first actions threads) (step : Step threads action next) :
      Run first (actions ++ [action]) next

end Threads

end TapeNet
