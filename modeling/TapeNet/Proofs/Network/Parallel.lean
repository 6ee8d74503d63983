import TapeNet.Network

/-!
# Networks side by side

Whatever a network does, it does by calls to its transport, and what it does
next depends on the answers alone.  If two transports give the same answers as
long as something is kept, and every single call keeps it, then every operation
of the network gives the same with both of them and keeps it as well.
-/

namespace TapeNet

namespace Network

/-- The network without anything open. -/
def closed (net : Network) : Network :=
  { net with link := .idle, listener := none, connection := none }

/-- The network behind the answer to a dial. -/
def answered (net : Network) : Option ConnectionId → Network
  | none => net
  | some connection => { net with connection := some connection, link := .connected }

/-- The network behind the attempt to set up a listener. -/
def bound (net : Network) : Option ListenerId → Network
  | none => net
  | some listener => { net with listener := some listener, link := .listening }

/-- A network behind the attempt to send its queue. -/
def leaving {σ : Type} (net : Network) (result : Bool × List UInt8 × σ) : Bool × Network × σ :=
  (result.1, { net with queue := result.2.1.toArray }, result.2.2)

/-- Closing makes up a network without anything open, in whatever world. -/
theorem reset_eq {σ : Type} (transport : Transport σ) (net : Network) (world : σ) :
    net.reset transport world = (net.closed, (net.reset transport world).2) :=
  rfl

theorem send_of_connected {σ : Type} (transport : Transport σ) {net : Network}
    {connection : ConnectionId} (connected : net.connection = some connection) (world : σ) :
    net.send transport world = net.leaving
      (SendQueue.flush (transport.write connection net.timeout) net.queue.toList world) := by
  unfold send
  split
  · next none_open => cases connected.symm.trans none_open
  · next other is_open =>
      cases connected.symm.trans is_open
      rfl

end Network

namespace SendQueue

variable {σ : Type} {write : List UInt8 → σ → Option Nat × σ} {queue : List UInt8} {world next : σ}

theorem flush_of_isEmpty (nothing : queue.isEmpty = true) :
    flush write queue world = (true, [], world) := by
  rw [flush, if_pos nothing]

theorem flush_of_whole (some_left : ¬ queue.isEmpty = true)
    (wrote : write (queue.take chunkSize) world = (some (queue.take chunkSize).length, next)) :
    flush write queue world = flush write (queue.drop chunkSize) next := by
  rw [flush, if_neg some_left]
  simp only [wrote, if_true]

theorem flush_of_short {taken : Nat} (some_left : ¬ queue.isEmpty = true)
    (wrote : write (queue.take chunkSize) world = (some taken, next))
    (short : ¬ taken = (queue.take chunkSize).length) :
    flush write queue world =
      (false, (queue.take chunkSize).drop taken ++ queue.drop chunkSize, next) := by
  rw [flush, if_neg some_left]
  simp only [wrote, if_neg short]

theorem flush_of_failed (some_left : ¬ queue.isEmpty = true)
    (failed : write (queue.take chunkSize) world = (none, next)) :
    flush write queue world = (false, queue.take chunkSize ++ queue.drop chunkSize, next) := by
  rw [flush, if_neg some_left]
  simp only [failed]

end SendQueue

namespace Network

/-- The byte that one of at most `attempts` attempts to receive gives. -/
def obtainedWithin {σ : Type} (transport : Transport σ) : Nat → Network → σ → Option UInt8
  | 0, _, _ => none
  | attempts + 1, net, world =>
    match net.receiveOnce transport world with
    | (some byte, _, _) => some byte
    | (none, net, world) =>
      if net.isBlocking then
        let (net, world) := net.settle transport (transport.pause world)
        obtainedWithin transport attempts net world
      else
        none

/-- The byte that an attempt of a receive gives, which is not a zero that stands for none. -/
def obtained {σ : Type} (transport : Transport σ) (net : Network) (world : σ) : Option UInt8 :=
  net.obtainedWithin transport (transport.patience world + 1) world

variable {σ τ α : Type}

/-- Two results that differ in their worlds only, with something kept about these. -/
inductive Matched (Kept : α → Network → σ → τ → Prop) :
    α × Network × σ → α × Network × τ → Prop where
  | intro {result : α} {net : Network} {world : σ} {other : τ}
      (kept : Kept result net world other) :
      Matched Kept (result, net, world) (result, net, other)

/--
Two transports give a network the same answers as long as something is kept
about the bytes that were read so far, the network and the two worlds, and
every call keeps it.
-/
structure Parallel (first : Transport σ) (second : Transport τ)
    (Kept : List UInt8 → Network → σ → τ → Prop) : Prop where
  resets : ∀ {got net world other}, Kept got net world other →
    Kept got net.closed (net.reset first world).2 (net.reset second other).2
  dials : ∀ {got net world other}, Kept got net world other →
    net.listener = none → net.connection = none →
      (first.dial ⟨net.addresses.target, net.port⟩ net.timeout world).1 =
          (second.dial ⟨net.addresses.target, net.port⟩ net.timeout other).1 ∧
        Kept got (net.answered (first.dial ⟨net.addresses.target, net.port⟩ net.timeout world).1)
          (first.dial ⟨net.addresses.target, net.port⟩ net.timeout world).2
          (second.dial ⟨net.addresses.target, net.port⟩ net.timeout other).2
  listens : ∀ {got net world other}, Kept got net world other →
    net.listener = none → net.connection = none →
      (first.listen ⟨net.addresses.listen, net.port⟩ world).1 =
          (second.listen ⟨net.addresses.listen, net.port⟩ other).1 ∧
        Kept got (net.bound (first.listen ⟨net.addresses.listen, net.port⟩ world).1)
          (first.listen ⟨net.addresses.listen, net.port⟩ world).2
          (second.listen ⟨net.addresses.listen, net.port⟩ other).2
  polls : ∀ {got net world other listener}, Kept got net world other →
    net.listener = some listener →
      (first.poll listener world).1 = (second.poll listener other).1 ∧
        Kept got (net.adopt (first.poll listener world).1) (first.poll listener world).2
          (second.poll listener other).2
  awaits : ∀ {got net world other listener}, Kept got net world other →
    net.listener = some listener →
      (first.await listener net.timeout world).1 = (second.await listener net.timeout other).1 ∧
        Kept got (net.adopt (first.await listener net.timeout world).1)
          (first.await listener net.timeout world).2 (second.await listener net.timeout other).2
  writes : ∀ {got net world other connection chunk rest}, Kept got net world other →
    net.connection = some connection → net.queue.toList = chunk ++ rest →
      (first.write connection net.timeout chunk world).1 =
          (second.write connection net.timeout chunk other).1 ∧
        Kept got
          { net with queue :=
              (chunk.drop ((first.write connection net.timeout chunk world).1.getD 0) ++
                rest).toArray }
          (first.write connection net.timeout chunk world).2
          (second.write connection net.timeout chunk other).2
  reads : ∀ {got net world other connection}, Kept got net world other →
    net.connection = some connection →
      (first.read connection net.timeout world).1 =
          (second.read connection net.timeout other).1 ∧
        Kept (got ++ (first.read connection net.timeout world).1.toList) net
          (first.read connection net.timeout world).2
          (second.read connection net.timeout other).2
  pauses : ∀ {got net world other}, Kept got net world other →
    Kept got net (first.pause world) (second.pause other)
  patience : ∀ {got net world other}, Kept got net world other →
    first.patience world = second.patience other

/-- Two pairs with the same first parts are the same pair but for the second parts. -/
theorem exists_of_fst_eq {first : α × σ} {second : α × τ} (same : first.1 = second.1) :
    ∃ answer world other, first = (answer, world) ∧ second = (answer, other) :=
  ⟨first.1, first.2, second.2, rfl, by rw [same]⟩

namespace Parallel

variable {first : Transport σ} {second : Transport τ} {Kept : List UInt8 → Network → σ → τ → Prop}
  {got : List UInt8} {net : Network} {world : σ} {other : τ}

theorem reset (parallel : Parallel first second Kept) (kept : Kept got net world other) :
    Matched (fun _ => Kept got) ((), net.reset first world) ((), net.reset second other) := by
  rw [reset_eq first, reset_eq second]
  exact ⟨parallel.resets kept⟩

theorem settle (parallel : Parallel first second Kept) (kept : Kept got net world other) :
    Matched (fun _ => Kept got) ((), net.settle first world) ((), net.settle second other) := by
  unfold Network.settle
  cases waits : net.listener with
  | none => exact ⟨kept⟩
  | some listener =>
      obtain ⟨same, after⟩ := parallel.polls kept waits
      obtain ⟨arrival, next, next', polled, polled'⟩ := exists_of_fst_eq same
      rw [polled, polled'] at after
      simp only [polled, polled']
      exact ⟨after⟩

theorem dial (parallel : Parallel first second Kept) (kept : Kept got net world other) :
    Matched (fun _ => Kept got) (net.dial first world) (net.dial second other) := by
  obtain ⟨same, after⟩ := parallel.dials (parallel.resets kept) rfl rfl
  obtain ⟨answer, next, next', dialed, dialed'⟩ := exists_of_fst_eq same
  rw [dialed, dialed'] at after
  unfold Network.dial
  rw [reset_eq first, reset_eq second]
  simp only [dialed, dialed']
  cases answer with
  | none | some connection => exact ⟨after⟩

theorem listen (parallel : Parallel first second Kept) (kept : Kept got net world other) :
    Matched (fun _ => Kept got) (net.listen first world) (net.listen second other) := by
  obtain ⟨same, after⟩ := parallel.listens (parallel.resets kept) rfl rfl
  obtain ⟨answer, next, next', bound, bound'⟩ := exists_of_fst_eq same
  rw [bound, bound'] at after
  unfold Network.listen
  rw [reset_eq first, reset_eq second]
  simp only [bound, bound']
  cases answer with
  | none | some listener => exact ⟨after⟩

/-- A chunk from the front of the queue is offered alike, and what is not taken of it stays. -/
theorem offer (parallel : Parallel first second Kept) {connection : ConnectionId}
    {queue : List UInt8} {answer : Option Nat} {next : σ}
    (connected : net.connection = some connection) (queued : net.queue.toList = queue)
    (kept : Kept got net world other)
    (wrote : first.write connection net.timeout (queue.take SendQueue.chunkSize) world =
      (answer, next)) :
    ∃ next', second.write connection net.timeout (queue.take SendQueue.chunkSize) other =
        (answer, next') ∧
      Kept got
        { net with queue := ((queue.take SendQueue.chunkSize).drop (answer.getD 0) ++
            queue.drop SendQueue.chunkSize).toArray }
        next next' := by
  have front := queued.trans (List.take_append_drop SendQueue.chunkSize queue).symm
  obtain ⟨same, after⟩ := parallel.writes kept connected front
  rw [wrote] at same after
  exact ⟨_, Prod.ext same.symm rfl, after⟩

/-- The chunks of a queue go out alike, each write from the front of what is left. -/
theorem flush (parallel : Parallel first second Kept) {connection : ConnectionId} {time : Nat}
    {queue : List UInt8} (connected : net.connection = some connection)
    (patient : time = net.timeout) (queued : net.queue.toList = queue)
    (kept : Kept got net world other) :
    Matched (fun _ => Kept got)
      (net.leaving (SendQueue.flush (first.write connection time) queue world))
      (net.leaving (SendQueue.flush (second.write connection time) queue other)) := by
  induction queue, world using SendQueue.flush.induct (first.write connection time)
    generalizing net other with
  | case1 queue world nothing =>
      rw [SendQueue.flush_of_isEmpty nothing, SendQueue.flush_of_isEmpty nothing]
      have same : net.queue = #[] := by
        rw [List.isEmpty_iff.mp nothing] at queued
        exact Array.toList_inj.mp queued
      have unchanged : { net with queue := #[] } = net := by rw [← same]
      simp only [leaving, unchanged]
      exact ⟨kept⟩
  | case2 queue world some_left chunk rest next =>
      rename_i wrote ih
      obtain ⟨next', told, after⟩ := parallel.offer connected queued kept (patient ▸ wrote)
      rw [← patient] at told
      rw [SendQueue.flush_of_whole some_left wrote, SendQueue.flush_of_whole some_left told]
      rw [Option.getD_some, List.drop_length, List.nil_append] at after
      exact @ih { net with queue := rest.toArray } next' connected patient rfl after
  | case3 queue world some_left chunk taken next wrote =>
      rename_i short
      obtain ⟨next', told, after⟩ := parallel.offer connected queued kept (patient ▸ wrote)
      rw [← patient] at told
      rw [SendQueue.flush_of_short some_left wrote short,
        SendQueue.flush_of_short some_left told short]
      exact ⟨after⟩
  | case4 queue world some_left chunk next =>
      rename_i failed
      obtain ⟨next', told, after⟩ := parallel.offer connected queued kept (patient ▸ failed)
      rw [← patient] at told
      rw [SendQueue.flush_of_failed some_left failed, SendQueue.flush_of_failed some_left told]
      exact ⟨after⟩

theorem send (parallel : Parallel first second Kept) (kept : Kept got net world other) :
    Matched (fun _ => Kept got) (net.send first world) (net.send second other) := by
  cases connected : net.connection with
  | none =>
      simp only [Network.send, connected]
      exact ⟨kept⟩
  | some connection =>
      rw [send_of_connected first connected, send_of_connected second connected]
      exact parallel.flush connected rfl rfl kept

theorem redial (parallel : Parallel first second Kept) (kept : Kept got net world other) :
    Matched (fun _ => Kept got) (net.redial first world) (net.redial second other) := by
  have dialed := parallel.dial kept
  unfold Network.redial
  generalize net.dial first world = result at dialed ⊢
  generalize net.dial second other = result' at dialed ⊢
  obtain @⟨answered, _, _, _, after⟩ := dialed
  cases answered with
  | false => exact ⟨after⟩
  | true => exact parallel.send after

theorem pushOnce (parallel : Parallel first second Kept) (kept : Kept got net world other) :
    Matched (fun _ => Kept got) (net.pushOnce first world) (net.pushOnce second other) := by
  unfold Network.pushOnce
  cases net.link with
  | idle | listening => exact parallel.redial kept
  | connected =>
      have sent := parallel.send kept
      dsimp only
      generalize net.send first world = result at sent ⊢
      generalize net.send second other = result' at sent ⊢
      obtain @⟨done, _, _, _, after⟩ := sent
      cases done with
      | true => exact ⟨after⟩
      | false => exact parallel.redial after

theorem pushWithin (parallel : Parallel first second Kept) (attempts : Nat)
    (kept : Kept got net world other) :
    Matched (fun _ => Kept got) (net.pushWithin first attempts world)
      (net.pushWithin second attempts other) := by
  induction attempts generalizing net world other with
  | zero => exact ⟨kept⟩
  | succ attempts ih =>
      have once := parallel.pushOnce kept
      unfold Network.pushWithin
      generalize net.pushOnce first world = result at once ⊢
      generalize net.pushOnce second other = result' at once ⊢
      obtain @⟨done, last, _, _, after⟩ := once
      cases done with
      | true => exact ⟨after⟩
      | false =>
          dsimp only
          cases last.isBlocking with
          | false => exact ⟨after⟩
          | true => exact ih (parallel.pauses after)

theorem push (parallel : Parallel first second Kept) (kept : Kept got net world other) :
    Matched (fun _ => Kept got) (net.push first world) (net.push second other) := by
  unfold Network.push
  rw [parallel.patience kept]
  exact parallel.pushWithin _ kept

/-- What a part of a receive gives is what was read in it. -/
theorem take (parallel : Parallel first second Kept) (kept : Kept got net world other) :
    Matched (fun byte => Kept (got ++ byte.toList)) (net.take first world)
      (net.take second other) := by
  unfold Network.take Network.readByte
  cases connected : net.connection with
  | none =>
      refine ⟨?_⟩
      rw [Option.toList_none, List.append_nil]
      exact parallel.resets kept
  | some connection =>
      obtain ⟨same, after⟩ := parallel.reads kept connected
      obtain ⟨byte, next, next', read, read'⟩ := exists_of_fst_eq same
      rw [read, read'] at after
      simp only [read, read']
      cases byte with
      | some byte => exact ⟨after⟩
      | none => exact ⟨parallel.resets after⟩

theorem approach (parallel : Parallel first second Kept) (kept : Kept got net world other) :
    Matched (fun byte => Kept (got ++ byte.toList)) (net.approach first world)
      (net.approach second other) := by
  have listens {net : Network} {world : σ} {other : τ} (kept : Kept got net world other) :
      Matched (fun byte : Option UInt8 => Kept (got ++ byte.toList))
        (none, (net.listen first world).2) (none, (net.listen second other).2) := by
    have bound := parallel.listen kept
    generalize net.listen first world = result at bound ⊢
    generalize net.listen second other = result' at bound ⊢
    obtain ⟨after⟩ := bound
    rw [← List.append_nil got] at after
    exact ⟨after⟩
  unfold Network.approach
  cases net.link with
  | idle => exact listens kept
  | listening =>
      rw [← List.append_nil got] at kept
      exact ⟨kept⟩
  | connected =>
      have taken := parallel.take kept
      dsimp only
      generalize net.take first world = result at taken ⊢
      generalize net.take second other = result' at taken ⊢
      obtain @⟨byte, _, _, _, after⟩ := taken
      cases byte with
      | some byte => exact ⟨after⟩
      | none =>
          rw [Option.toList_none, List.append_nil] at after
          exact listens after

theorem collect (parallel : Parallel first second Kept) (kept : Kept got net world other) :
    Matched (fun byte => Kept (got ++ byte.toList)) (net.collect first world)
      (net.collect second other) := by
  unfold Network.collect
  cases net.link with
  | idle | listening =>
      rw [← List.append_nil got] at kept
      exact ⟨kept⟩
  | connected => exact parallel.take kept

theorem meet (parallel : Parallel first second Kept) (kept : Kept got net world other) :
    Matched (fun byte => Kept (got ++ byte.toList)) (net.meet first world)
      (net.meet second other) := by
  unfold Network.meet
  cases waits : net.listener with
  | none =>
      rw [← List.append_nil got] at kept
      exact ⟨kept⟩
  | some listener =>
      obtain ⟨same, after⟩ := parallel.awaits kept waits
      obtain ⟨arrival, next, next', awaited, awaited'⟩ := exists_of_fst_eq same
      rw [awaited, awaited'] at after
      simp only [awaited, awaited']
      cases arrival with
      | nobody =>
          have settled := parallel.settle after
          dsimp only [adopt] at settled ⊢
          generalize net.settle first next = result at settled ⊢
          generalize net.settle second next' = result' at settled ⊢
          obtain ⟨later⟩ := settled
          rw [← List.append_nil got] at later
          exact ⟨later⟩
      | peer connection | failed => exact parallel.collect after

theorem receiveOnce (parallel : Parallel first second Kept) (kept : Kept got net world other) :
    Matched (fun byte => Kept (got ++ byte.toList)) (net.receiveOnce first world)
      (net.receiveOnce second other) := by
  have approached := parallel.approach kept
  unfold Network.receiveOnce
  generalize net.approach first world = result at approached ⊢
  generalize net.approach second other = result' at approached ⊢
  obtain @⟨byte, _, _, _, after⟩ := approached
  cases byte with
  | some byte => exact ⟨after⟩
  | none =>
      rw [Option.toList_none, List.append_nil] at after
      exact parallel.meet after

/-- Over all attempts, what is read is the byte of the one that succeeds. -/
theorem receiveWithin (parallel : Parallel first second Kept) (attempts : Nat)
    (kept : Kept got net world other) :
    Matched (fun _ => Kept (got ++ (net.obtainedWithin first attempts world).toList))
      (net.receiveWithin first attempts world) (net.receiveWithin second attempts other) := by
  induction attempts generalizing net world other with
  | zero =>
      rw [← List.append_nil got] at kept
      exact ⟨kept⟩
  | succ attempts ih =>
      have once := parallel.receiveOnce kept
      unfold Network.receiveWithin Network.obtainedWithin
      generalize net.receiveOnce first world = result at once ⊢
      generalize net.receiveOnce second other = result' at once ⊢
      obtain @⟨byte, last, next, next', after⟩ := once
      cases byte with
      | some byte => exact ⟨after⟩
      | none =>
          dsimp only
          cases last.isBlocking with
          | false => exact ⟨after⟩
          | true =>
              rw [Option.toList_none, List.append_nil] at after
              have settled := parallel.settle (parallel.pauses after)
              simp only [if_true]
              generalize last.settle first (first.pause next) = result at settled ⊢
              generalize last.settle second (second.pause next') = result' at settled ⊢
              obtain ⟨later⟩ := settled
              exact ih later

theorem receive (parallel : Parallel first second Kept) (kept : Kept got net world other) :
    Matched (fun _ => Kept (got ++ (net.obtained first world).toList)) (net.receive first world)
      (net.receive second other) := by
  unfold Network.receive Network.obtained
  rw [← parallel.patience kept]
  exact parallel.receiveWithin _ kept

end Parallel

end Network

end TapeNet
