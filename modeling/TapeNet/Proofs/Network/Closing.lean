import TapeNet.Proofs.Network.Chronicle

/-!
# A connection that gives nothing is closed

A read that fails is followed by the closing of its connection before anything
else is called, in every operation.  So what holds of a world is kept by every
operation if it is kept by every call, where a read that fails needs to keep
it only together with the closing behind it.
-/

namespace TapeNet

namespace Network

variable {σ : Type}

/-- Something about worlds that every call made for sending keeps. -/
structure Outgoing (transport : Transport σ) (Fine : σ → Prop) : Prop where
  resets : ∀ (net : Network) {world : σ}, Fine world → Fine (net.reset transport world).2
  dials : ∀ place time {world}, Fine world → Fine (transport.dial place time world).2
  writes : ∀ connection time bytes {world}, Fine world →
    Fine (transport.write connection time bytes world).2
  pauses : ∀ {world}, Fine world → Fine (transport.pause world)

/--
Something about worlds that every call keeps; a read keeps it together with
the closing of a connection that gives nothing.
-/
structure Steady (transport : Transport σ) (Fine : σ → Prop) : Prop extends
    Outgoing transport Fine where
  takes : ∀ (net : Network) {world : σ}, Fine world → Fine (net.take transport world).2.2
  listens : ∀ place {world}, Fine world → Fine (transport.listen place world).2
  polls : ∀ listener {world}, Fine world → Fine (transport.poll listener world).2
  awaits : ∀ listener time {world}, Fine world → Fine (transport.await listener time world).2

namespace Outgoing

variable {transport : Transport σ} {Fine : σ → Prop} {world : σ}

theorem dial (outgoing : Outgoing transport Fine) (net : Network) (fine : Fine world) :
    Fine (net.dial transport world).2.2 := by
  have reset := outgoing.resets net fine
  have dialed := outgoing.dials ⟨net.addresses.target, net.port⟩ net.timeout reset
  unfold Network.dial
  rw [reset_eq transport net world]
  dsimp only [closed]
  split
  · next answer => rwa [answer] at dialed
  · next answer => rwa [answer] at dialed

theorem flush (outgoing : Outgoing transport Fine) (connection : ConnectionId) (time : Nat)
    (queue : List UInt8) (fine : Fine world) :
    Fine (SendQueue.flush (transport.write connection time) queue world).2.2 := by
  induction queue, world using SendQueue.flush.induct (transport.write connection time) with
  | case1 queue world nothing =>
      rw [SendQueue.flush_of_isEmpty nothing]
      exact fine
  | case2 queue world some_left chunk rest next =>
      rename_i wrote ih
      have written := outgoing.writes connection time chunk fine
      rw [SendQueue.flush_of_whole some_left wrote]
      rw [wrote] at written
      exact ih written
  | case3 queue world some_left chunk taken next wrote =>
      rename_i short
      have written := outgoing.writes connection time chunk fine
      rw [SendQueue.flush_of_short some_left wrote short]
      rwa [wrote] at written
  | case4 queue world some_left chunk next =>
      rename_i failed
      have written := outgoing.writes connection time chunk fine
      rw [SendQueue.flush_of_failed some_left failed]
      rwa [failed] at written

theorem send (outgoing : Outgoing transport Fine) (net : Network) (fine : Fine world) :
    Fine (net.send transport world).2.2 := by
  unfold Network.send
  cases net.connection with
  | none => exact fine
  | some connection => exact outgoing.flush connection net.timeout net.queue.toList fine

theorem redial (outgoing : Outgoing transport Fine) (net : Network) (fine : Fine world) :
    Fine (net.redial transport world).2.2 := by
  have dialed := outgoing.dial net fine
  unfold Network.redial
  split
  · next answer => rwa [answer] at dialed
  · next answer =>
      rw [answer] at dialed
      exact outgoing.send _ dialed

theorem pushOnce (outgoing : Outgoing transport Fine) (net : Network) (fine : Fine world) :
    Fine (net.pushOnce transport world).2.2 := by
  unfold Network.pushOnce
  cases net.link with
  | idle | listening => exact outgoing.redial net fine
  | connected =>
      have sent := outgoing.send net fine
      dsimp only
      split
      · next answer => rwa [answer] at sent
      · next answer =>
          rw [answer] at sent
          exact outgoing.redial _ sent

theorem pushWithin (outgoing : Outgoing transport Fine) (attempts : Nat) (net : Network)
    (fine : Fine world) : Fine (net.pushWithin transport attempts world).2.2 := by
  induction attempts generalizing net world with
  | zero => exact fine
  | succ attempts ih =>
      have once := outgoing.pushOnce net fine
      unfold Network.pushWithin
      split
      · next answer => rwa [answer] at once
      · next answer =>
          rw [answer] at once
          split
          · exact ih _ (outgoing.pauses once)
          · exact once

end Outgoing

namespace Steady

variable {transport : Transport σ} {Fine : σ → Prop} {world : σ}

theorem settle (steady : Steady transport Fine) (net : Network) (fine : Fine world) :
    Fine (net.settle transport world).2 := by
  unfold Network.settle
  cases net.listener with
  | none => exact fine
  | some listener => exact steady.polls listener fine

theorem listen (steady : Steady transport Fine) (net : Network) (fine : Fine world) :
    Fine (net.listen transport world).2.2 := by
  have listens := steady.listens ⟨net.addresses.listen, net.port⟩ (steady.resets net fine)
  unfold Network.listen
  rw [reset_eq transport net world]
  dsimp only [closed]
  split
  · next answer => rwa [answer] at listens
  · next answer => rwa [answer] at listens

theorem approach (steady : Steady transport Fine) (net : Network) (fine : Fine world) :
    Fine (net.approach transport world).2.2 := by
  unfold Network.approach
  cases net.link with
  | idle => exact steady.listen net fine
  | listening => exact fine
  | connected =>
      have taken := steady.takes net fine
      dsimp only
      split
      · next answer => rwa [answer] at taken
      · next answer =>
          rw [answer] at taken
          exact steady.listen _ taken

theorem collect (steady : Steady transport Fine) (net : Network) (fine : Fine world) :
    Fine (net.collect transport world).2.2 := by
  unfold Network.collect
  cases net.link with
  | idle | listening => exact fine
  | connected => exact steady.takes net fine

theorem meet (steady : Steady transport Fine) (net : Network) (fine : Fine world) :
    Fine (net.meet transport world).2.2 := by
  unfold Network.meet
  cases net.listener with
  | none => exact fine
  | some listener =>
      have awaited := steady.awaits listener net.timeout fine
      dsimp only
      split
      · next answer =>
          rw [answer] at awaited
          exact steady.settle net awaited
      · next answer =>
          rw [answer] at awaited
          exact steady.collect _ awaited

theorem receiveOnce (steady : Steady transport Fine) (net : Network) (fine : Fine world) :
    Fine (net.receiveOnce transport world).2.2 := by
  have approached := steady.approach net fine
  unfold Network.receiveOnce
  split
  · next answer => rwa [answer] at approached
  · next answer =>
      rw [answer] at approached
      exact steady.meet _ approached

theorem receiveWithin (steady : Steady transport Fine) (attempts : Nat) (net : Network)
    (fine : Fine world) : Fine (net.receiveWithin transport attempts world).2.2 := by
  induction attempts generalizing net world with
  | zero => exact fine
  | succ attempts ih =>
      have once := steady.receiveOnce net fine
      unfold Network.receiveWithin
      split
      · next answer => rwa [answer] at once
      · next answer =>
          rw [answer] at once
          split
          · exact ih _ (steady.settle _ (steady.pauses once))
          · exact once

/-- Every move keeps what every call keeps. -/
theorem make (steady : Steady transport Fine) (move : Move) (net : Network) (fine : Fine world) :
    Fine (move.make transport net world).2 := by
  cases move with
  | setPort byte | reset => exact steady.resets net fine
  | setTimeout byte | enqueue byte => exact fine
  | push => exact steady.pushWithin _ net fine
  | receive => exact steady.receiveWithin _ net fine
  | settle => exact steady.settle net fine
  | approach => exact steady.approach net fine
  | collect => exact steady.collect net fine

end Steady

/-- The closing of a connection, behind that of a listener if there is one. -/
def closure (listener : Option ListenerId) (connection : ConnectionId) : List Signal :=
  (listener.toList.map Call.unlisten ++ [Call.hangUp connection]).map .call

/-- A connection that gives nothing is closed before anything else is called. -/
def Tidy (signals : List Signal) : Prop :=
  ∀ front connection rest, signals = front ++ .call (.read connection none) :: rest →
    ∃ listener, closure listener connection <+: rest

namespace Tidy

variable {signals later : List Signal}

theorem of_forall (others : ∀ signal ∈ signals, ∀ connection,
    signal ≠ .call (.read connection none)) : Tidy signals := by
  rintro front connection rest rfl
  have member : .call (.read connection none) ∈ front ++ .call (.read connection none) :: rest :=
    List.mem_append_right front List.mem_cons_self
  cases others _ member connection rfl

theorem append (first : Tidy signals) (second : Tidy later) : Tidy (signals ++ later) := by
  intro front connection rest whole
  rcases List.append_eq_append_iff.mp whole with ⟨middle, rfl, tail⟩ | ⟨middle, rfl, tail⟩
  · exact second middle connection rest tail
  · cases middle with
    | nil => exact second [] connection rest tail.symm
    | cons read middle =>
        obtain ⟨rfl, rfl⟩ := List.cons.inj tail
        obtain ⟨listener, closed⟩ := first front connection middle rfl
        exact ⟨listener, closed.trans (List.prefix_append middle later)⟩

/-- A read that fails, with the closing behind it. -/
theorem failed (listener : Option ListenerId) (connection : ConnectionId) :
    Tidy (.call (.read connection none) :: closure listener connection) := by
  intro front other rest whole
  cases front with
  | nil =>
      obtain ⟨same, rfl⟩ := List.cons.inj whole
      cases same
      exact ⟨listener, List.prefix_rfl⟩
  | cons first front =>
      have member : .call (.read other none) ∈ closure listener connection := by
        rw [(List.cons.inj whole).2]
        exact List.mem_append_right front List.mem_cons_self
      cases listener with
      | none | some bound => simp [closure] at member

end Tidy

/-- The calls listed so far are tidy. -/
def TidyCalls (world : σ × List Call) : Prop :=
  Tidy (world.2.map .call)

theorem TidyCalls.append {world next : σ} {calls more : List Call}
    (tidy : TidyCalls (world, calls)) (later : Tidy (more.map .call)) :
    TidyCalls (next, calls ++ more) := by
  unfold TidyCalls at tidy ⊢
  rw [List.map_append]
  exact tidy.append later

/-- One more call that is no read. -/
theorem TidyCalls.more {world next : σ} {calls : List Call} (tidy : TidyCalls (world, calls))
    {call : Call} (other : ∀ connection answer, call ≠ .read connection answer) :
    TidyCalls (next, calls ++ [call]) := by
  refine tidy.append (.of_forall fun signal member connection same => ?_)
  rw [List.map_singleton, List.mem_singleton] at member
  exact other connection none (Signal.call.inj (member.symm.trans same))

/-- Closing everything lists what was open, the listener first. -/
theorem reset_traced (transport : Transport σ) (net : Network) (world : σ) (calls : List Call) :
    (net.reset transport.traced (world, calls)).2.2 =
      calls ++ (net.listener.toList.map .unlisten ++ net.connection.toList.map .hangUp) := by
  unfold Network.reset
  cases net.listener with
  | none =>
      cases net.connection with
      | none => exact (List.append_nil calls).symm
      | some connection => rfl
  | some listener =>
      cases net.connection with
      | none => rfl
      | some connection => exact List.append_assoc calls [.unlisten listener] [.hangUp connection]

theorem tidy_reset (transport : Transport σ) (net : Network) {state : σ × List Call}
    (tidy : TidyCalls state) : TidyCalls (net.reset transport.traced state).2 := by
  obtain ⟨world, calls⟩ := state
  have told := reset_traced transport net world calls
  generalize (net.reset transport.traced (world, calls)).2 = last at told ⊢
  obtain ⟨next, _⟩ := last
  obtain rfl := told
  refine tidy.append (.of_forall ?_)
  cases net.listener with
  | none | some listener =>
      cases net.connection with
      | none | some connection => simp

/-- A read that fails is listed with the closing behind it. -/
theorem tidy_take (transport : Transport σ) (net : Network) {state : σ × List Call}
    (tidy : TidyCalls state) : TidyCalls (net.take transport.traced state).2.2 := by
  obtain ⟨world, calls⟩ := state
  unfold Network.take Network.readByte
  cases connected : net.connection with
  | none => exact tidy_reset transport net tidy
  | some connection =>
      dsimp only [Transport.traced]
      cases answer : (transport.read connection net.timeout world).1 with
      | some byte =>
          refine tidy.append (.of_forall fun signal member other same => ?_)
          rw [List.map_singleton, List.mem_singleton, same] at member
          cases member
      | none =>
          have told := reset_traced transport net (transport.read connection net.timeout world).2
            (calls ++ [.read connection none])
          unfold TidyCalls
          dsimp only [Transport.traced] at told ⊢
          rw [told, connected, List.append_assoc, List.map_append]
          exact Tidy.append tidy (.failed net.listener connection)

theorem tidy_steady (transport : Transport σ) : Steady transport.traced TidyCalls where
  resets net _ tidy := tidy_reset transport net tidy
  takes net _ tidy := tidy_take transport net tidy
  dials _ _ _ tidy := tidy.more fun _ _ same => nomatch same
  listens _ _ tidy := tidy.more fun _ _ same => nomatch same
  polls _ _ tidy := tidy.more fun _ _ same => nomatch same
  awaits _ _ _ tidy := tidy.more fun _ _ same => nomatch same
  writes _ _ _ _ tidy := tidy.more fun _ _ same => nomatch same
  pauses tidy := tidy.more fun _ _ same => nomatch same

/-- In any chronicle, a connection that gives nothing is closed before anything else is called. -/
theorem chronicle_tidy (transport : Transport σ) (moves : List Move) (net : Network) (world : σ) :
    Tidy (chronicle transport moves net world) := by
  induction moves generalizing net world with
  | nil => exact .of_forall fun _ member => nomatch member
  | cons move moves ih =>
      have calls : TidyCalls (move.make transport.traced net (world, [])).2 :=
        (tidy_steady transport).make move net (.of_forall fun _ member => nomatch member)
      have ending : Tidy [.done move] := .of_forall fun signal member connection same => by
        rw [List.mem_singleton.mp member] at same
        cases same
      exact Tidy.append calls (ending.append (ih _ _))

end Network

end TapeNet
