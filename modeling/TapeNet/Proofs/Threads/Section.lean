import TapeNet.Proofs.Network.Agreement
import TapeNet.Proofs.Network.Closing

/-!
# Sections under the lock

A program shares its network with threads that accept peers, and holds a lock
while it makes a move.  A section is such a move in the middle: the calls that
it has made so far are the first ones that the move makes in some world.  So
what a section can do is what the operations do, call by call.
-/

namespace TapeNet

/-- The listener that is tracked behind a call. -/
def Call.tracks (tracked : Option ListenerId) : Call → Option ListenerId
  | .listen _ answer => answer
  | .unlisten _ | .await _ (.peer _) | .await _ .failed => none
  | .await _ .nobody | .dial _ _ | .hangUp _ | .write _ _ _ | .read _ _ | .pause => tracked

/-- A call that sets up no listener and takes none down. -/
def Call.isPlain : Call → Bool
  | .listen _ answer => answer.isNone
  | .dial _ _ | .hangUp _ | .write _ _ _ | .read _ _ | .pause => true
  | .unlisten _ | .await _ _ => false

namespace Network

/-- The listener that is tracked behind some calls. -/
def tracking (net : Network) (calls : List Call) : Option ListenerId :=
  calls.foldl Call.tracks net.listener

/-- In some world, a move makes these calls and leaves the network so. -/
def Plays (net : Network) (move : Move) (calls : List Call) (last : Network) : Prop :=
  ∃ (σ : Type) (transport : Transport σ) (world next : σ),
    move.make transport.traced net (world, []) = (last, next, calls)

/-- A transport on which nothing succeeds. -/
def deaf : Transport Unit where
  listen _ world := (none, world)
  unlisten _ world := world
  poll _ world := (.nobody, world)
  await _ _ world := (.nobody, world)
  dial _ _ world := (none, world)
  hangUp _ world := world
  write _ _ _ world := (none, world)
  read _ _ world := (none, world)
  pause world := world
  patience _ := 0

/-- The moves made under the lock: a receive only in parts, and not what is done by a listener. -/
def Move.isLocked : Move → Bool
  | .receive | .settle => false
  | .setPort _ | .setTimeout _ | .enqueue _ | .push | .reset | .approach | .collect => true

/-- A move in the middle. -/
structure Section where
  move : Move
  calls : List Call := []

namespace Section

/-- The section with one more call. -/
def after (part : Section) (call : Call) : Section :=
  { part with calls := part.calls ++ [call] }

/-- The section can be in the middle of its move. -/
def Legal (net : Network) (part : Section) : Prop :=
  ∃ calls last, Plays net part.move calls last ∧ part.calls <+: calls

@[simp]
theorem after_calls (part : Section) (call : Call) :
    (part.after call).calls = part.calls ++ [call] :=
  rfl

end Section

@[simp]
theorem tracking_snoc (net : Network) (calls : List Call) (call : Call) :
    net.tracking (calls ++ [call]) = call.tracks (net.tracking calls) := by
  rw [tracking, List.foldl_append, List.foldl_cons, List.foldl_nil, tracking]

theorem Deed.listener_eq {hold next : Hold} {call : Call} (deed : Deed hold (.call call) next) :
    next.listener = call.tracks hold.listener := by
  cases deed with
  | await waits arrival =>
      cases arrival with
      | nobody | peer connection | failed => rfl
  | listen | unlisten | dial | hangUp | write | read | pause => rfl

theorem Deed.listener_of_done {hold next : Hold} {move : Move}
    (deed : Deed hold (.done move) next) : next.listener = hold.listener := by
  cases deed with
  | done => rfl

theorem Deeds.listener_eq {net : Network} {calls : List Call} {hold : Hold}
    (deeds : Deeds net.hold (calls.map .call) hold) : hold.listener = net.tracking calls := by
  induction calls using List.reverseRecOn generalizing hold with
  | nil => rw [deeds.eq_of_nil]; rfl
  | append_singleton calls call ih =>
      rw [List.map_append] at deeds
      obtain ⟨before, earlier, deed⟩ := deeds.exists_of_snoc
      rw [deed.listener_eq, ih earlier, tracking_snoc]

namespace Plays

variable {net last : Network} {move : Move} {calls : List Call}

theorem deeds (plays : Plays net move calls last) :
    Deeds net.hold (calls.map .call ++ [.done move]) last.hold := by
  obtain ⟨σ, transport, world, next, made⟩ := plays
  have traced := move.make_traced transport world (.none : Deeds net.hold [] net.hold)
  have deeds := traced.deeds
  have same := congrArg Prod.fst traced.same
  rw [made] at deeds same
  rw [show last = (move.make transport net world).1 from same]
  exact deeds

theorem agrees (plays : Plays net move calls last) (agrees : net.Agrees) : last.Agrees := by
  obtain ⟨σ, transport, world, next, made⟩ := plays
  have traced := move.make_traced transport world (.none : Deeds net.hold [] net.hold)
  have same := congrArg Prod.fst traced.same
  rw [made] at same
  rw [show last = (move.make transport net world).1 from same]
  exact ((move.makes transport net world).agrees agrees).1

theorem listener_eq (plays : Plays net move calls last) : last.listener = net.tracking calls := by
  obtain ⟨hold, before, deed⟩ := plays.deeds.exists_of_snoc
  exact deed.listener_of_done.trans before.listener_eq

end Plays

theorem Section.legal_of_nil (net : Network) (move : Move) : Section.Legal net { move } :=
  ⟨_, _, ⟨Unit, deaf, (), _, rfl⟩, List.nil_prefix⟩

namespace Section.Legal

variable {net : Network} {part : Section} {call : Call}

/-- One more call is one that the network can make with what it holds then. -/
theorem exists_deed (legal : (part.after call).Legal net) :
    ∃ hold next, Deed hold (.call call) next ∧ hold.listener = net.tracking part.calls := by
  obtain ⟨calls, last, plays, rest, whole⟩ := legal
  have deeds := plays.deeds
  rw [← whole, List.map_append, List.append_assoc] at deeds
  obtain ⟨next, first⟩ := deeds.exists_of_append
  rw [after, List.map_append] at first
  obtain ⟨hold, earlier, deed⟩ := first.exists_of_snoc
  exact ⟨hold, next, deed, earlier.listener_eq⟩

/-- Only the tracked listener is taken down. -/
theorem tracking_of_unlisten {listener : ListenerId}
    (legal : (part.after (.unlisten listener)).Legal net) :
    net.tracking part.calls = some listener := by
  obtain ⟨hold, next, deed, same⟩ := legal.exists_deed
  cases deed with
  | unlisten waits => exact same.symm.trans waits

/-- No listener is tracked when one is set up. -/
theorem tracking_of_listen {place : Endpoint} {answer : Option ListenerId}
    (legal : (part.after (.listen place answer)).Legal net) : net.tracking part.calls = none := by
  obtain ⟨hold, next, deed, same⟩ := legal.exists_deed
  cases deed with
  | listen nothing => exact same.symm.trans nothing.1

/-- No listener is tracked when somebody is dialed. -/
theorem tracking_of_dial {place : Endpoint} {answer : Option ConnectionId}
    (legal : (part.after (.dial place answer)).Legal net) : net.tracking part.calls = none := by
  obtain ⟨hold, next, deed, same⟩ := legal.exists_deed
  cases deed with
  | dial nothing => exact same.symm.trans nothing.1

/-- No call but one that concerns a listener changes what is tracked. -/
theorem tracks_of_isPlain (legal : (part.after call).Legal net) (plain : call.isPlain = true) :
    call.tracks (net.tracking part.calls) = net.tracking part.calls := by
  cases call with
  | listen place answer =>
      rw [legal.tracking_of_listen]
      exact Option.isNone_iff_eq_none.mp plain
  | unlisten | await => cases plain
  | dial | hangUp | write | read | pause => rfl

end Section.Legal

/-- Nothing is called behind the attempt to set up a listener. -/
def ListensLast (calls : List Call) : Prop :=
  ∀ front place answer rest, calls = front ++ .listen place answer :: rest → rest = []

/-- No listener is set up. -/
def Unheard {σ : Type} (state : σ × List Call) : Prop :=
  ∀ place answer, .listen place answer ∉ state.2

section

variable {σ : Type} (transport : Transport σ)

theorem Unheard.more {world next : σ} {calls : List Call} (unheard : Unheard (world, calls))
    {call : Call} (other : ∀ place answer, call ≠ .listen place answer) :
    Unheard (next, calls ++ [call]) := by
  intro place answer member
  rcases List.mem_append.mp member with before | now
  · exact unheard place answer before
  · exact other place answer (List.mem_singleton.mp now).symm

theorem Unheard.listensLast {state : σ × List Call} (unheard : Unheard state) :
    ListensLast state.2 := by
  intro front place answer rest whole
  have member : .listen place answer ∈ front ++ .listen place answer :: rest :=
    List.mem_append_right front List.mem_cons_self
  rw [← whole] at member
  cases unheard place answer member

theorem Unheard.listensLast_snoc {state : σ × List Call} (unheard : Unheard state)
    (call : Call) : ListensLast (state.2 ++ [call]) := by
  intro front place answer rest whole
  rcases List.eq_nil_or_concat rest with nothing | ⟨middle, last, rfl⟩
  · exact nothing
  · rw [List.concat_eq_append, ← List.cons_append, ← List.append_assoc] at whole
    have calls := (List.append_inj' whole rfl).1
    have member : .listen place answer ∈ front ++ .listen place answer :: middle :=
      List.mem_append_right front List.mem_cons_self
    rw [← calls] at member
    cases unheard place answer member

theorem unheard_reset (net : Network) {state : σ × List Call} (unheard : Unheard state) :
    Unheard (net.reset transport.traced state).2 := by
  obtain ⟨world, calls⟩ := state
  intro place answer
  rw [reset_traced, List.mem_append, List.mem_append, not_or, not_or]
  refine ⟨unheard place answer, ?_, ?_⟩
  · exact fun member => by simp at member
  · exact fun member => by simp at member

/-- Nothing that is called for sending sets up a listener. -/
theorem unheard_outgoing : Outgoing transport.traced Unheard where
  resets net _ unheard := unheard_reset transport net unheard
  dials _ _ _ unheard := unheard.more fun _ _ same => nomatch same
  writes _ _ _ _ unheard := unheard.more fun _ _ same => nomatch same
  pauses unheard := unheard.more fun _ _ same => nomatch same

theorem unheard_take (net : Network) {state : σ × List Call} (unheard : Unheard state) :
    Unheard (net.take transport.traced state).2.2 := by
  obtain ⟨world, calls⟩ := state
  unfold Network.take Network.readByte
  cases net.connection with
  | none => exact unheard_reset transport net unheard
  | some connection =>
      have read : Unheard (transport.traced.read connection net.timeout (world, calls)).2 :=
        unheard.more fun _ _ same => nomatch same
      dsimp only
      split
      · next answer => rwa [answer] at read
      · next answer =>
          rw [answer] at read
          exact unheard_reset transport net read

theorem listensLast_listen (net : Network) {state : σ × List Call} (unheard : Unheard state) :
    ListensLast (net.listen transport.traced state).2.2.2 := by
  have last := (unheard_reset transport net unheard).listensLast_snoc
  unfold Network.listen
  -- Everything is closed first, and then the listener is set up or not: that is all.
  rw [reset_eq transport.traced net state]
  generalize (net.reset transport.traced state).2 = middle at last ⊢
  dsimp only [Transport.traced]
  cases (transport.listen ⟨net.closed.addresses.listen, net.closed.port⟩ middle.1).1 with
  | none | some listener => exact last _

theorem listensLast_approach (net : Network) {state : σ × List Call} (unheard : Unheard state) :
    ListensLast (net.approach transport.traced state).2.2.2 := by
  unfold Network.approach
  cases net.link with
  | idle => exact listensLast_listen transport net unheard
  | listening => exact unheard.listensLast
  | connected =>
      have taken := unheard_take transport net unheard
      dsimp only
      split
      · next answer =>
          rw [answer] at taken
          exact taken.listensLast
      · next answer =>
          rw [answer] at taken
          exact listensLast_listen transport _ taken

end

/-- Under the lock, an attempt to set up a listener is the last call. -/
theorem Plays.listensLast {net last : Network} {move : Move} {calls : List Call}
    (plays : Plays net move calls last) (locked : move.isLocked = true) : ListensLast calls := by
  obtain ⟨σ, transport, world, next, made⟩ := plays
  have unheard : Unheard (world, ([] : List Call)) := fun _ _ member => nomatch member
  have calls_eq := congrArg (·.2.2) made
  dsimp only at calls_eq
  rw [← calls_eq]
  cases move with
  | setPort byte | reset => exact (unheard_reset transport net unheard).listensLast
  | setTimeout byte | enqueue byte => exact unheard.listensLast
  | push => exact ((unheard_outgoing transport).pushWithin _ net unheard).listensLast
  | approach => exact listensLast_approach transport net unheard
  | collect =>
      dsimp only [Move.make]
      unfold Network.collect
      cases net.link with
      | idle | listening => exact unheard.listensLast
      | connected => exact (unheard_take transport net unheard).listensLast
  | receive | settle => cases locked

end Network

end TapeNet
