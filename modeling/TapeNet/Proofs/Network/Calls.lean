import Mathlib.Data.List.Induction
import TapeNet.Proofs.Network.Moves

/-!
# The calls of a network

A record of what is done through a transport leaves out what fails and what is
read.  Here every call stands with its answer, and the end of every move
between the calls, so that every moment within a move can be told.  What a
network can call at any moment, and what that makes of it, is said once.
-/

namespace TapeNet

/-- A call to a transport and its answer; waiting at a listener and looking at it are one. -/
inductive Call where
  | listen (place : Endpoint) (answer : Option ListenerId)
  | unlisten (listener : ListenerId)
  | await (listener : ListenerId) (arrival : Arrival)
  | dial (place : Endpoint) (answer : Option ConnectionId)
  | hangUp (connection : ConnectionId)
  | write (connection : ConnectionId) (bytes : List UInt8) (answer : Option Nat)
  | read (connection : ConnectionId) (answer : Option UInt8)
  | pause
  deriving DecidableEq

namespace Call

/-- The byte that a call reads. -/
def got : Call → List UInt8
  | read _ answer => answer.toList
  | _ => []

/-- What a call leaves of the bytes that wait. -/
def leaves (queue : List UInt8) : Call → List UInt8
  | write _ bytes answer => bytes.drop (answer.getD 0) ++ queue.drop bytes.length
  | _ => queue

end Call

/-- A transport that behaves in the same way and lists the calls. -/
def Transport.traced {σ : Type} (transport : Transport σ) : Transport (σ × List Call) where
  listen place state :=
    let done := transport.listen place state.1
    (done.1, done.2, state.2 ++ [.listen place done.1])
  unlisten listener state :=
    (transport.unlisten listener state.1, state.2 ++ [.unlisten listener])
  poll listener state :=
    let done := transport.poll listener state.1
    (done.1, done.2, state.2 ++ [.await listener done.1])
  await listener time state :=
    let done := transport.await listener time state.1
    (done.1, done.2, state.2 ++ [.await listener done.1])
  dial place time state :=
    let done := transport.dial place time state.1
    (done.1, done.2, state.2 ++ [.dial place done.1])
  hangUp connection state :=
    (transport.hangUp connection state.1, state.2 ++ [.hangUp connection])
  write connection time bytes state :=
    let done := transport.write connection time bytes state.1
    (done.1, done.2, state.2 ++ [.write connection bytes done.1])
  read connection time state :=
    let done := transport.read connection time state.1
    (done.1, done.2, state.2 ++ [.read connection done.1])
  pause state := (transport.pause state.1, state.2 ++ [.pause])
  patience state := transport.patience state.1

namespace Network

/-- What a network has open, and the bytes that wait to be sent. -/
structure Hold where
  listener : Option ListenerId := none
  connection : Option ConnectionId := none
  queue : List UInt8 := []

def hold (net : Network) : Hold :=
  ⟨net.listener, net.connection, net.queue.toList⟩

/-- What the end of a listener's wait makes of what is open. -/
def Hold.adopt (hold : Hold) : Arrival → Hold
  | .nobody => hold
  | .peer connection => { hold with listener := none, connection := some connection }
  | .failed => { hold with listener := none }

/-- What a move makes of the bytes that wait, when all its calls are made. -/
def Move.leaves (queue : List UInt8) : Move → List UInt8
  | setPort _ => []
  | move => queue ++ move.queued

/-- A call, or the end of a move. -/
inductive Signal where
  | call (call : Call)
  | done (move : Move)
  deriving DecidableEq

namespace Signal

/-- The byte that is read. -/
def got : Signal → List UInt8
  | .call made => made.got
  | .done _ => []

/-- The move that ends. -/
def move? : Signal → Option Move
  | call _ => none
  | done move => some move

/-- What is left of the bytes that wait. -/
def leaves (queue : List UInt8) : Signal → List UInt8
  | .call made => made.leaves queue
  | .done move => move.leaves queue

end Signal

/-- What a network can call and what can end, and what each makes of what the network holds. -/
inductive Deed : Hold → Signal → Hold → Prop where
  | listen {hold : Hold} (nothing : hold.listener = none ∧ hold.connection = none)
      (place : Endpoint) (answer : Option ListenerId) :
      Deed hold (.call (.listen place answer)) { hold with listener := answer }
  | unlisten {hold : Hold} {listener : ListenerId} (waits : hold.listener = some listener) :
      Deed hold (.call (.unlisten listener)) { hold with listener := none }
  | await {hold : Hold} {listener : ListenerId} (waits : hold.listener = some listener)
      (arrival : Arrival) :
      Deed hold (.call (.await listener arrival)) (hold.adopt arrival)
  | dial {hold : Hold} (nothing : hold.listener = none ∧ hold.connection = none)
      (place : Endpoint) (answer : Option ConnectionId) :
      Deed hold (.call (.dial place answer)) { hold with connection := answer }
  | hangUp {hold : Hold} {connection : ConnectionId}
      (connected : hold.connection = some connection) :
      Deed hold (.call (.hangUp connection)) { hold with connection := none }
  | write {hold : Hold} {connection : ConnectionId}
      (connected : hold.connection = some connection) {bytes rest : List UInt8}
      (queued : hold.queue = bytes ++ rest) (answer : Option Nat) :
      Deed hold (.call (.write connection bytes answer))
        { hold with queue := bytes.drop (answer.getD 0) ++ rest }
  | read {hold : Hold} {connection : ConnectionId}
      (connected : hold.connection = some connection) (answer : Option UInt8) :
      Deed hold (.call (.read connection answer)) hold
  | pause (hold : Hold) : Deed hold (.call .pause) hold
  | done (hold : Hold) (move : Move) :
      Deed hold (.done move) { hold with queue := move.leaves hold.queue }

/-- A row of deeds from a start, the last one at the end. -/
inductive Deeds (start : Hold) : List Signal → Hold → Prop where
  | none : Deeds start [] start
  | more {signals : List Signal} {hold next : Hold} {signal : Signal}
      (before : Deeds start signals hold) (last : Deed hold signal next) :
      Deeds start (signals ++ [signal]) next

namespace Deeds

variable {start hold last : Hold} {signals later : List Signal} {signal : Signal}

theorem eq_of_nil (deeds : Deeds start [] last) : last = start := by
  generalize nothing : [] = row at deeds
  cases deeds with
  | none => rfl
  | more =>
      cases List.append_ne_nil_of_right_ne_nil _ (List.cons_ne_nil _ []) nothing.symm

/-- The last deed of a row, and those before it. -/
theorem exists_of_snoc (deeds : Deeds start (signals ++ [signal]) last) :
    ∃ hold, Deeds start signals hold ∧ Deed hold signal last := by
  generalize whole : signals ++ [signal] = row at deeds
  cases deeds with
  | none => cases List.append_ne_nil_of_right_ne_nil signals (List.cons_ne_nil signal []) whole
  | more before last =>
      obtain ⟨rfl, same⟩ := List.append_inj' whole rfl
      cases same
      exact ⟨_, before, last⟩

/-- A row in two parts. -/
theorem exists_parts (deeds : Deeds start (signals ++ later) last) :
    ∃ middle, Deeds start signals middle ∧ Deeds middle later last := by
  induction later using List.reverseRecOn generalizing last with
  | nil =>
      rw [List.append_nil] at deeds
      exact ⟨last, deeds, .none⟩
  | append_singleton later signal ih =>
      rw [← List.append_assoc] at deeds
      obtain ⟨hold, before, deed⟩ := deeds.exists_of_snoc
      obtain ⟨middle, first, second⟩ := ih before
      exact ⟨middle, first, .more second deed⟩

/-- The first deeds of a row are a row. -/
theorem exists_of_append (deeds : Deeds start (signals ++ later) last) :
    ∃ hold, Deeds start signals hold := by
  obtain ⟨middle, first, _⟩ := deeds.exists_parts
  exact ⟨middle, first⟩

end Deeds

variable {σ : Type}

/--
A world beside one that lists the calls: these, behind the signals before, are
deeds of the network, and they read the bytes that it got.
-/
structure Traces (start : Hold) (before : List Signal) (got : List UInt8) (net : Network)
    (world : σ) (traced : σ × List Call) : Prop where
  same : traced.1 = world
  deeds : Deeds start (before ++ traced.2.map .call) net.hold
  reads : traced.2.flatMap Call.got = got

variable {start : Hold} {before : List Signal} {got : List UInt8} {net last : Network}
  {world world' : σ} {calls : List Call}

theorem Traces.more {call : Call} (traces : Traces start before got net world (world, calls))
    (deed : Deed net.hold (.call call) last.hold) :
    Traces start before (got ++ call.got) last world' (world', calls ++ [call]) where
  same := rfl
  deeds := by
    rw [List.map_append, ← List.append_assoc]
    exact .more traces.deeds deed
  reads := by rw [List.flatMap_append, List.flatMap_singleton, traces.reads]

/-- A call that reads nothing. -/
theorem Traces.silent {call : Call} (traces : Traces start before got net world (world, calls))
    (deed : Deed net.hold (.call call) last.hold) (nothing : call.got = []) :
    Traces start before got last world' (world', calls ++ [call]) := by
  have after : Traces start before (got ++ call.got) last world' (world', calls ++ [call]) :=
    traces.more deed
  rwa [nothing, List.append_nil] at after

theorem hold_answered (no_connection : net.connection = none) (answer : Option ConnectionId) :
    (net.answered answer).hold = { net.hold with connection := answer } := by
  cases answer with
  | none => simp only [answered, hold, no_connection]
  | some connection => rfl

theorem hold_bound (no_listener : net.listener = none) (answer : Option ListenerId) :
    (net.bound answer).hold = { net.hold with listener := answer } := by
  cases answer with
  | none => simp only [bound, hold, no_listener]
  | some listener => rfl

theorem hold_adopt (net : Network) (arrival : Arrival) :
    (net.adopt arrival).hold = net.hold.adopt arrival := by
  cases arrival with
  | nobody | peer connection | failed => rfl

/-- A network whose listener is taken down before anything else is closed. -/
def unlistened (net : Network) : Network :=
  { net with listener := none }

/-- Closing goes on, when the listener is down, as if there had been none. -/
theorem Traces.exists_unlistened (transport : Transport σ)
    (traces : Traces start before got net world (world, calls)) :
    ∃ middle calls', Traces start before got net.unlistened middle (middle, calls') ∧
      net.reset transport world = net.unlistened.reset transport middle ∧
      net.reset transport.traced (world, calls) =
        net.unlistened.reset transport.traced (middle, calls') := by
  unfold Network.reset
  cases waits : net.listener with
  | none =>
      have nothing : net.unlistened = net := by rw [unlistened, ← waits]
      exact ⟨world, calls, nothing ▸ traces, rfl, rfl⟩
  | some listener =>
      have down : Deed net.hold (.call (.unlisten listener)) net.unlistened.hold := .unlisten waits
      exact ⟨_, _, traces.silent down rfl, rfl, rfl⟩

/-- Closing first takes the listener down and then hangs up, where there is something open. -/
theorem Traces.reset (transport : Transport σ)
    (traces : Traces start before got net world (world, calls)) :
    Traces start before got net.closed (net.reset transport world).2
      (net.reset transport.traced (world, calls)).2 := by
  obtain ⟨middle, calls', first, plain, traced⟩ := traces.exists_unlistened transport
  rw [plain, traced]
  unfold Network.reset
  cases connected : net.connection with
  | none =>
      have nothing : net.closed.hold = net.unlistened.hold := by
        simp only [hold, closed, unlistened, connected]
      simp only [unlistened, connected]
      exact ⟨rfl, nothing ▸ first.deeds, first.reads⟩
  | some connection =>
      have ends : Deed net.unlistened.hold (.call (.hangUp connection)) net.closed.hold :=
        .hangUp connected
      simp only [unlistened, connected]
      exact first.silent ends rfl

/-- Every call to a transport that lists the calls is a deed of the network. -/
theorem traces_parallel (transport : Transport σ) (start : Hold) (before : List Signal) :
    Parallel transport transport.traced (Traces start before) where
  resets := by
    rintro got net _ ⟨world, calls⟩ traces
    obtain rfl := traces.same
    exact traces.reset transport
  dials := by
    rintro got net _ ⟨world, calls⟩ traces no_listener no_connection
    obtain rfl := traces.same
    refine ⟨rfl, traces.silent ?_ rfl⟩
    rw [hold_answered no_connection]
    exact .dial ⟨no_listener, no_connection⟩ _ _
  listens := by
    rintro got net _ ⟨world, calls⟩ traces no_listener no_connection
    obtain rfl := traces.same
    refine ⟨rfl, traces.silent ?_ rfl⟩
    rw [hold_bound no_listener]
    exact .listen ⟨no_listener, no_connection⟩ _ _
  polls := by
    rintro got net _ ⟨world, calls⟩ listener traces waits
    obtain rfl := traces.same
    refine ⟨rfl, traces.silent ?_ rfl⟩
    rw [hold_adopt]
    exact .await waits _
  awaits := by
    rintro got net _ ⟨world, calls⟩ listener traces waits
    obtain rfl := traces.same
    refine ⟨rfl, traces.silent ?_ rfl⟩
    rw [hold_adopt]
    exact .await waits _
  writes := by
    rintro got net _ ⟨world, calls⟩ connection chunk rest traces connected queued
    obtain rfl := traces.same
    exact ⟨rfl, traces.silent (.write connected queued _) rfl⟩
  reads := by
    rintro got net _ ⟨world, calls⟩ connection traces connected
    obtain rfl := traces.same
    exact ⟨rfl, traces.more (.read connected _)⟩
  pauses := by
    rintro got net _ ⟨world, calls⟩ traces
    obtain rfl := traces.same
    exact traces.silent (.pause net.hold) rfl
  patience := by
    rintro got net _ ⟨world, calls⟩ traces
    obtain rfl := traces.same
    rfl

end Network

end TapeNet
