import TapeNet.Proofs.Network.Chronicle

/-!
# The medium between a sender and a receiver

Two networks in one world: what the sender dials reaches a listener of the
receiver, and nobody else dials.  A connection carries bytes in their order
from the sender to the receiver and may be cut at any time.  A listener hands
over a single peer; whoever else waits at it is lost with it.

The two networks call as they like and independently of each other.  The
medium says which answers fit together, in whatever order the calls come.
-/

namespace TapeNet

/-- A call that does nothing to the world: an attempt that fails, or a pause. -/
def Call.isIdle : Call → Bool
  | listen _ answer => answer.isNone
  | await _ arrival => arrival == .nobody
  | dial _ answer => answer.isNone
  | write _ _ answer => answer.isNone
  | read _ answer => answer.isNone
  | pause => true
  | unlisten _ | hangUp _ => false

namespace Network

/-- Where a connection of the sender stands on the side of the receiver. -/
inductive Stage where
  /-- A listener may accept it. -/
  | waiting (listener : ListenerId)
  /-- It was accepted, and this is what the receiver calls it. -/
  | accepted (connection : ConnectionId)
  /-- The receiver has closed it, or cannot get it any more. -/
  | lost
  deriving DecidableEq

/-- The stage after those connections were lost that stood at another one. -/
def Stage.without (gone stage : Stage) : Stage :=
  if stage = gone then .lost else stage

/-- A connection of the sender. -/
structure Pipe where
  origin : ConnectionId
  stage : Stage
  /-- The bytes that were written and not yet read. -/
  flight : List UInt8 := []
  /-- Nobody has closed it, and nothing of it was cut off. -/
  whole : Bool := true

namespace Pipe

/-- A connection that stands at this stage is lost. -/
def without (gone : Stage) (pipe : Pipe) : Pipe :=
  if pipe.stage = gone then { pipe with stage := .lost, whole := false } else pipe

/-- The sender closes a connection: what is in flight can still be read. -/
def ended (connection : ConnectionId) (pipe : Pipe) : Pipe :=
  if pipe.origin = connection then { pipe with whole := false } else pipe

/-- Bytes are written to a connection; one that is broken does not carry them. -/
def carrying (connection : ConnectionId) (bytes : List UInt8) (pipe : Pipe) : Pipe :=
  if pipe.origin = connection ∧ pipe.whole = true then
    { pipe with flight := pipe.flight ++ bytes }
  else
    pipe

/-- A connection is cut: no more than the first `left` bytes in flight arrive. -/
def cut (left : Nat) (pipe : Pipe) : Pipe :=
  { pipe with flight := pipe.flight.take left, whole := false }

end Pipe

/-- The listeners of the receiver with their places, and all connections that the sender dialed. -/
structure Medium where
  listeners : List (ListenerId × Endpoint) := []
  pipes : List Pipe := []

namespace Medium

def stages (medium : Medium) : List Stage :=
  medium.pipes.map Pipe.stage

/-- All bytes in flight, those of the oldest connection first. -/
def inFlight (medium : Medium) : List UInt8 :=
  medium.pipes.flatMap Pipe.flight

/-- No connection was closed or cut. -/
def Undisturbed (medium : Medium) : Prop :=
  ∀ pipe ∈ medium.pipes, pipe.whole = true

/-- A listener is gone, and with it who waits there. -/
def unbound (medium : Medium) (listener : ListenerId) : Medium where
  listeners := medium.listeners.filter (·.1 != listener)
  pipes := medium.pipes.map (.without (.waiting listener))

end Medium

/-- What happens in a world with a sender and a receiver. -/
inductive Happening where
  | sender (signal : Signal)
  | receiver (signal : Signal)
  /-- A connection is cut. -/
  | cut

namespace Happening

/-- What the sender signals. -/
def sender? : Happening → Option Signal
  | sender signal => some signal
  | receiver _ | cut => none

/-- What the receiver signals. -/
def receiver? : Happening → Option Signal
  | receiver signal => some signal
  | sender _ | cut => none

end Happening

/-- What can happen in a medium, and what it makes of the medium. -/
inductive Step (medium : Medium) : Happening → Medium → Prop where
  | listen (listener : ListenerId) (place : Endpoint) :
      Step medium (.receiver (.call (.listen place (some listener))))
        { medium with listeners := (listener, place) :: medium.listeners }
  | unlisten (listener : ListenerId) :
      Step medium (.receiver (.call (.unlisten listener))) (medium.unbound listener)
  | refuse (listener : ListenerId) :
      Step medium (.receiver (.call (.await listener .failed))) (medium.unbound listener)
  /-- A listener hands over one that waits there, and the others are lost. -/
  | accept {before after : List Pipe} {pipe : Pipe} (pipes : medium.pipes = before ++ pipe :: after)
      {listener : ListenerId} (waits : pipe.stage = .waiting listener)
      (connection : ConnectionId) :
      Step medium (.receiver (.call (.await listener (.peer connection))))
        (Medium.unbound
          { medium with pipes := before ++ { pipe with stage := .accepted connection } :: after }
          listener)
  /-- Dialing succeeds only if a listener is bound to the port. -/
  | dial {listener : ListenerId} {bound place : Endpoint}
      (is_bound : (listener, bound) ∈ medium.listeners) (port : bound.port = place.port)
      (connection : ConnectionId) :
      Step medium (.sender (.call (.dial place (some connection))))
        { medium with pipes :=
            medium.pipes ++ [{ origin := connection, stage := .waiting listener }] }
  | write (connection : ConnectionId) (bytes : List UInt8) (taken : Nat) :
      Step medium (.sender (.call (.write connection bytes (some taken))))
        { medium with pipes := medium.pipes.map (.carrying connection (bytes.take taken)) }
  /-- The first byte in flight is read. -/
  | read {before after : List Pipe} {pipe : Pipe} (pipes : medium.pipes = before ++ pipe :: after)
      {connection : ConnectionId} (accepted : pipe.stage = .accepted connection)
      {byte : UInt8} {rest : List UInt8} (first : pipe.flight = byte :: rest) :
      Step medium (.receiver (.call (.read connection (some byte))))
        { medium with pipes := before ++ { pipe with flight := rest } :: after }
  | senderHangUp (connection : ConnectionId) :
      Step medium (.sender (.call (.hangUp connection)))
        { medium with pipes := medium.pipes.map (.ended connection) }
  | receiverHangUp (connection : ConnectionId) :
      Step medium (.receiver (.call (.hangUp connection)))
        { medium with pipes := medium.pipes.map (.without (.accepted connection)) }
  | cut {before after : List Pipe} {pipe : Pipe} (pipes : medium.pipes = before ++ pipe :: after)
      (left : Nat) :
      Step medium .cut { medium with pipes := before ++ pipe.cut left :: after }
  | senderIdle {call : Call} (idle : call.isIdle = true) : Step medium (.sender (.call call)) medium
  | receiverIdle {call : Call} (idle : call.isIdle = true) :
      Step medium (.receiver (.call call)) medium
  | senderDone (move : Move) : Step medium (.sender (.done move)) medium
  | receiverDone (move : Move) : Step medium (.receiver (.done move)) medium

/-- What can happen in a medium one after the other, the last at the end. -/
inductive Path : List Happening → Medium → Prop where
  | start : Path [] {}
  | step {log : List Happening} {medium next : Medium} {happening : Happening}
      (before : Path log medium) (step : Step medium happening next) :
      Path (log ++ [happening]) next

/-- What the sender signals, in a log of what happened. -/
def senderPart (log : List Happening) : List Signal :=
  log.filterMap Happening.sender?

/-- What the receiver signals, in a log of what happened. -/
def receiverPart (log : List Happening) : List Signal :=
  log.filterMap Happening.receiver?

/-- What happens together with what the two networks hold then. -/
inductive Joint : List Happening → Hold → Hold → Medium → Prop where
  | start : Joint [] {} {} {}
  | sender {log : List Happening} {sending receiving after : Hold} {medium next : Medium}
      {signal : Signal} (before : Joint log sending receiving medium)
      (deed : Deed sending signal after) (step : Step medium (.sender signal) next) :
      Joint (log ++ [.sender signal]) after receiving next
  | receiver {log : List Happening} {sending receiving after : Hold} {medium next : Medium}
      {signal : Signal} (before : Joint log sending receiving medium)
      (deed : Deed receiving signal after) (step : Step medium (.receiver signal) next) :
      Joint (log ++ [.receiver signal]) sending after next
  | cut {log : List Happening} {sending receiving : Hold} {medium next : Medium}
      (before : Joint log sending receiving medium) (step : Step medium .cut next) :
      Joint (log ++ [.cut]) sending receiving next

/-- The deeds of both networks and what happens in the medium fit together, moment by moment. -/
theorem Path.joint {log : List Happening} {medium : Medium} (path : Path log medium)
    {sending receiving : Hold} (sends : Deeds {} (senderPart log) sending)
    (receives : Deeds {} (receiverPart log) receiving) : Joint log sending receiving medium := by
  induction path generalizing sending receiving with
  | start =>
      obtain rfl := sends.eq_of_nil
      obtain rfl := receives.eq_of_nil
      exact .start
  | @step log _ _ happening _ step ih =>
      rw [senderPart, List.filterMap_append] at sends
      rw [receiverPart, List.filterMap_append] at receives
      cases happening with
      | sender signal =>
          obtain ⟨_, before, deed⟩ := sends.exists_of_snoc
          exact .sender (ih before (List.append_nil (receiverPart log) ▸ receives)) deed step
      | receiver signal =>
          obtain ⟨_, before, deed⟩ := receives.exists_of_snoc
          exact .receiver (ih (List.append_nil (senderPart log) ▸ sends) before) deed step
      | cut =>
          refine .cut (ih ?_ ?_) step
          · exact List.append_nil (senderPart log) ▸ sends
          · exact List.append_nil (receiverPart log) ▸ receives

/-- A call that does nothing to the world does nothing to what a network holds. -/
theorem Deed.eq_of_isIdle {hold next : Hold} {call : Call} (deed : Deed hold (.call call) next)
    (idle : call.isIdle = true) : next = hold := by
  cases deed with
  | listen nothing place answer =>
      obtain rfl := Option.isNone_iff_eq_none.mp idle
      rw [← nothing.1]
  | dial nothing place answer =>
      obtain rfl := Option.isNone_iff_eq_none.mp idle
      rw [← nothing.2]
  | await waits arrival =>
      obtain rfl := beq_iff_eq.mp idle
      rfl
  | write connected queued answer =>
      obtain rfl := Option.isNone_iff_eq_none.mp idle
      rw [Option.getD_none, List.drop_zero, ← queued]
  | unlisten | hangUp => cases idle
  | read | pause => rfl

/--
The receiver knows of every listener and of every connection that it can still
read from: it holds what these stand at, and holds only one thing.
-/
structure Tracks (hold : Hold) (medium : Medium) : Prop where
  listeners : ∀ entry ∈ medium.listeners, hold.listener = some entry.1
  single : hold.listener = none ∨ hold.connection = none
  waiting : ∀ listener, .waiting listener ∈ medium.stages → hold.listener = some listener
  accepted : ∀ connection, .accepted connection ∈ medium.stages → hold.connection = some connection
  /-- All connections before an accepted one are lost. -/
  alone : medium.stages.Pairwise fun earlier later =>
    ∀ connection, later = .accepted connection → earlier = .lost

@[simp]
theorem Stage.without_lost (gone : Stage) : Stage.without gone .lost = .lost := by
  unfold Stage.without
  split
  · rfl
  · rfl

/-- Behind a loss, a stage is lost or another one than what was lost. -/
theorem mem_map_without {gone stage : Stage} {stages : List Stage}
    (member : stage ∈ stages.map (.without gone)) :
    stage = .lost ∨ stage ∈ stages ∧ stage ≠ gone := by
  obtain ⟨old, is_old, rfl⟩ := List.mem_map.mp member
  unfold Stage.without
  split
  · exact .inl rfl
  · next other => exact .inr ⟨is_old, other⟩

namespace Pipe

theorem stage_without (gone : Stage) (pipe : Pipe) :
    (pipe.without gone).stage = Stage.without gone pipe.stage := by
  unfold without Stage.without
  split
  · rfl
  · rfl

theorem stage_carrying (connection : ConnectionId) (bytes : List UInt8) (pipe : Pipe) :
    (pipe.carrying connection bytes).stage = pipe.stage := by
  unfold carrying
  split
  · rfl
  · rfl

theorem stage_ended (connection : ConnectionId) (pipe : Pipe) :
    (pipe.ended connection).stage = pipe.stage := by
  unfold ended
  split
  · rfl
  · rfl

end Pipe

/-- What keeps the stage of every connection keeps the stages. -/
theorem stages_map {change : Pipe → Pipe} (keeps : ∀ pipe : Pipe, (change pipe).stage = pipe.stage)
    (pipes : List Pipe) : (pipes.map change).map Pipe.stage = pipes.map Pipe.stage := by
  rw [List.map_map]
  exact List.map_congr_left fun pipe _ => keeps pipe

theorem stages_at (before after : List Pipe) {pipe later : Pipe} (same : later.stage = pipe.stage) :
    (before ++ later :: after).map Pipe.stage = (before ++ pipe :: after).map Pipe.stage := by
  rw [List.map_append, List.map_append, List.map_cons, List.map_cons, same]

theorem stages_without (gone : Stage) (pipes : List Pipe) :
    (pipes.map (.without gone)).map Pipe.stage = (pipes.map Pipe.stage).map (.without gone) := by
  rw [List.map_map, List.map_map]
  exact List.map_congr_left fun pipe _ => pipe.stage_without gone

namespace Tracks

variable {hold next : Hold} {medium : Medium} {listener : ListenerId} {connection : ConnectionId}

theorem blank : Tracks {} {} where
  listeners _ member := by cases member
  single := .inl rfl
  waiting _ member := by cases member
  accepted _ member := by cases member
  alone := .nil

/-- Only what is open and the stages matter. -/
theorem congr (tracks : Tracks hold medium) {medium' : Medium}
    (listener : next.listener = hold.listener) (connection : next.connection = hold.connection)
    (listeners : medium'.listeners = medium.listeners) (stages : medium'.stages = medium.stages) :
    Tracks next medium' := by
  obtain ⟨bound, single, waiting, accepted, alone⟩ := tracks
  constructor
  · rwa [listeners, listener]
  · rwa [listener, connection]
  · rwa [stages, listener]
  · rwa [stages, connection]
  · rwa [stages]

theorem connection_eq (tracks : Tracks hold medium) (waits : hold.listener = some listener) :
    hold.connection = none := by
  rcases tracks.single with no_listener | no_connection
  · cases waits.symm.trans no_listener
  · exact no_connection

/-- As long as the receiver listens, connections wait for it there or are lost. -/
theorem eq_lost_of_listens (tracks : Tracks hold medium) (waits : hold.listener = some listener)
    {stage : Stage} (member : stage ∈ medium.stages.map (.without (.waiting listener))) :
    stage = .lost := by
  rcases mem_map_without member with lost | ⟨is_old, other⟩
  · exact lost
  · cases stage with
    | waiting old =>
        cases (tracks.waiting old is_old).symm.trans waits
        contradiction
    | accepted old => cases (tracks.accepted old is_old).symm.trans (tracks.connection_eq waits)
    | lost => rfl

theorem listeners_eq (tracks : Tracks hold medium) (waits : hold.listener = some listener) :
    medium.listeners.filter (·.1 != listener) = [] := by
  refine List.filter_eq_nil_iff.mpr fun entry member => ?_
  cases (tracks.listeners entry member).symm.trans waits
  rw [bne_self_eq_false]
  exact Bool.false_ne_true

theorem listen (tracks : Tracks hold medium)
    (nothing : hold.listener = none ∧ hold.connection = none) (listener : ListenerId)
    (place : Endpoint) :
    Tracks { hold with listener := some listener }
      { medium with listeners := (listener, place) :: medium.listeners } where
  listeners entry member := by
    rcases List.mem_cons.mp member with rfl | is_old
    · rfl
    · cases nothing.1.symm.trans (tracks.listeners entry is_old)
  single := .inr nothing.2
  waiting old member := by cases nothing.1.symm.trans (tracks.waiting old member)
  accepted := tracks.accepted
  alone := tracks.alone

/-- With a listener, everybody who waits there is lost. -/
theorem unbound (tracks : Tracks hold medium) (waits : hold.listener = some listener) :
    Tracks { hold with listener := none } (medium.unbound listener) := by
  have lost : ∀ stage ∈ (medium.unbound listener).stages, stage = .lost := by
    unfold Medium.unbound Medium.stages
    rw [stages_without]
    exact fun stage member => tracks.eq_lost_of_listens waits member
  constructor
  · intro entry member
    rw [Medium.unbound, tracks.listeners_eq waits] at member
    cases member
  · exact .inl rfl
  · intro old member
    cases lost _ member
  · intro old member
    cases lost _ member
  · exact List.pairwise_of_forall_mem_list fun earlier member _ _ _ _ => lost earlier member

/-- The connection that a listener hands over stands between lost ones. -/
theorem stages_accept (tracks : Tracks hold medium) (waits : hold.listener = some listener)
    {before after : List Pipe} {pipe : Pipe} (pipes : medium.pipes = before ++ pipe :: after)
    (connection : ConnectionId) :
    ∃ earlier later : List Stage,
      (Medium.unbound
        { medium with pipes := before ++ { pipe with stage := .accepted connection } :: after }
        listener).stages = earlier ++ .accepted connection :: later ∧
      (∀ stage ∈ earlier, stage = .lost) ∧ ∀ stage ∈ later, stage = .lost := by
  have others : ∀ stage : Stage,
      stage ∈ ((before ++ after).map Pipe.stage).map (.without (.waiting listener)) →
        stage = .lost := by
    intro stage member
    refine tracks.eq_lost_of_listens waits (List.map_subset _ (List.map_subset _ ?_) member)
    rw [pipes]
    exact (List.Sublist.append_left (List.sublist_cons_self pipe after) before).subset
  rw [List.map_append, List.map_append, List.forall_mem_append] at others
  have kept : Stage.without (.waiting listener) (.accepted connection) = .accepted connection :=
    if_neg (by intro same; cases same)
  refine ⟨_, _, ?_, others⟩
  unfold Medium.unbound Medium.stages
  rw [stages_without, List.map_append, List.map_cons, List.map_append, List.map_cons, kept]

theorem accept (tracks : Tracks hold medium) (waits : hold.listener = some listener)
    {before after : List Pipe} {pipe : Pipe} (pipes : medium.pipes = before ++ pipe :: after)
    (connection : ConnectionId) :
    Tracks { hold with listener := none, connection := some connection }
      (Medium.unbound
        { medium with pipes := before ++ { pipe with stage := .accepted connection } :: after }
        listener) := by
  obtain ⟨earlier, later, stages, lost_before, lost_after⟩ :=
    tracks.stages_accept waits pipes connection
  have known : ∀ stage ∈ earlier ++ .accepted connection :: later,
      stage = .lost ∨ stage = .accepted connection := by
    refine List.forall_mem_append.mpr ⟨?_, List.forall_mem_cons.mpr ⟨.inr rfl, ?_⟩⟩
    · exact fun stage member => .inl (lost_before stage member)
    · exact fun stage member => .inl (lost_after stage member)
  constructor
  · intro entry member
    simp only [Medium.unbound, tracks.listeners_eq waits] at member
    cases member
  · exact .inl rfl
  · intro old member
    rcases known _ (stages ▸ member) with lost | same
    · cases lost
    · cases same
  · intro old member
    rcases known _ (stages ▸ member) with lost | same
    · cases lost
    · cases same
      rfl
  · rw [stages, List.pairwise_append, List.pairwise_cons]
    refine ⟨?_, ⟨?_, ?_⟩, ?_⟩
    · exact List.pairwise_of_forall_mem_list fun _ member _ _ _ _ => lost_before _ member
    · intro last is_later other is_accepted
      cases (lost_after last is_later).symm.trans is_accepted
    · exact List.pairwise_of_forall_mem_list fun _ member _ _ _ _ => lost_after _ member
    · intro first is_earlier _ _ _ _
      exact lost_before first is_earlier

/-- A connection that the receiver closes is lost. -/
theorem hangUp (tracks : Tracks hold medium) (connected : hold.connection = some connection) :
    Tracks { hold with connection := none }
      { medium with pipes := medium.pipes.map (.without (.accepted connection)) } := by
  constructor
  · exact tracks.listeners
  · exact .inr rfl
  · intro old member
    rw [Medium.stages, stages_without] at member
    rcases mem_map_without member with lost | ⟨is_old, _⟩
    · cases lost
    · exact tracks.waiting old is_old
  · intro old member
    rw [Medium.stages, stages_without] at member
    rcases mem_map_without member with lost | ⟨is_old, other⟩
    · cases lost
    · cases (tracks.accepted old is_old).symm.trans connected
      contradiction
  · rw [Medium.stages, stages_without, List.pairwise_map]
    refine tracks.alone.imp ?_
    intro earlier later alone other is_accepted
    unfold Stage.without at is_accepted
    split at is_accepted
    · cases is_accepted
    · rw [alone other is_accepted]
      exact Stage.without_lost _

theorem dial (tracks : Tracks hold medium) {bound : Endpoint}
    (is_bound : (listener, bound) ∈ medium.listeners) (connection : ConnectionId) :
    Tracks hold { medium with pipes :=
      medium.pipes ++ [{ origin := connection, stage := .waiting listener }] } := by
  constructor
  · exact tracks.listeners
  · exact tracks.single
  · intro old member
    rw [Medium.stages, List.map_append, List.mem_append] at member
    rcases member with is_old | is_new
    · exact tracks.waiting old is_old
    · cases List.mem_singleton.mp is_new
      exact tracks.listeners _ is_bound
  · intro old member
    rw [Medium.stages, List.map_append, List.mem_append] at member
    rcases member with is_old | is_new
    · exact tracks.accepted old is_old
    · cases List.mem_singleton.mp is_new
  · rw [Medium.stages, List.map_append, List.pairwise_append]
    refine ⟨tracks.alone, List.pairwise_singleton _ _, ?_⟩
    intro earlier _ later is_new other is_accepted
    rw [List.map_singleton, List.mem_singleton] at is_new
    cases is_new.symm.trans is_accepted

/-- Everything before a connection that the receiver reads from is lost. -/
theorem lost_before (tracks : Tracks hold medium) {before after : List Pipe} {pipe : Pipe}
    (pipes : medium.pipes = before ++ pipe :: after)
    (accepted : pipe.stage = .accepted connection) :
    ∀ other ∈ before, other.stage = .lost := by
  have alone := tracks.alone
  rw [Medium.stages, pipes, List.pairwise_map, List.pairwise_append] at alone
  obtain ⟨_, _, apart⟩ := alone
  intro other member
  exact apart other member pipe List.mem_cons_self connection accepted

/-- What the receiver signals keeps track of the medium. -/
theorem step {next : Hold} {medium' : Medium} {signal : Signal} (tracks : Tracks hold medium)
    (deed : Deed hold signal next) (step : Step medium (.receiver signal) medium') :
    Tracks next medium' := by
  cases step with
  | listen listener place =>
      cases deed with
      | listen nothing => exact tracks.listen nothing listener place
  | unlisten listener =>
      cases deed with
      | unlisten waits => exact tracks.unbound waits
  | refuse listener =>
      cases deed with
      | await waits => exact tracks.unbound waits
  | accept pipes _ connection =>
      cases deed with
      | await waits => exact tracks.accept waits pipes connection
  | read pipes _ _ =>
      cases deed with
      | read connected =>
          refine tracks.congr rfl rfl rfl ?_
          rw [Medium.stages, Medium.stages, pipes]
          exact stages_at _ _ rfl
  | receiverHangUp connection =>
      cases deed with
      | hangUp connected => exact tracks.hangUp connected
  | receiverIdle idle =>
      rw [deed.eq_of_isIdle idle]
      exact tracks
  | receiverDone move =>
      cases deed
      exact tracks.congr rfl rfl rfl rfl

/-- The receiver need not know what the sender signals, and where a connection is cut. -/
theorem elsewhere {medium' : Medium} {happening : Happening} (tracks : Tracks hold medium)
    (elsewhere : happening.receiver? = none) (step : Step medium happening medium') :
    Tracks hold medium' := by
  cases step with
  | dial is_bound _ connection => exact tracks.dial is_bound connection
  | write connection bytes taken =>
      exact tracks.congr rfl rfl rfl (stages_map (Pipe.stage_carrying connection _) medium.pipes)
  | senderHangUp connection =>
      exact tracks.congr rfl rfl rfl (stages_map (Pipe.stage_ended connection) medium.pipes)
  | cut pipes left =>
      refine tracks.congr rfl rfl rfl ?_
      rw [Medium.stages, Medium.stages, pipes]
      exact stages_at _ _ rfl
  | senderIdle | senderDone => exact tracks
  | listen | unlisten | refuse | accept | read | receiverHangUp | receiverIdle | receiverDone =>
      cases elsewhere

end Tracks

/-- At every moment the receiver keeps track of the medium. -/
theorem Joint.tracks {log : List Happening} {sending receiving : Hold} {medium : Medium}
    (joint : Joint log sending receiving medium) : Tracks receiving medium := by
  induction joint with
  | start => exact .blank
  | sender _ _ step ih => exact ih.elsewhere rfl step
  | receiver _ deed step ih => exact ih.step deed step
  | cut _ step ih => exact ih.elsewhere rfl step

end Network

end TapeNet
