import Mathlib.Data.List.Forall2
import TapeNet.Proofs.Network.Medium

/-!
# What the receiver reads is what the sender has queued

Both networks close connections and open new ones as they like, connections
are cut, and bytes in flight are lost.  Still every byte that the sender puts
into its queue is read at most once, and in the order of the queue: a
connection is opened only when the one before is closed, and read from only
when those before are lost.
-/

namespace TapeNet

/-- A call that does nothing to the world reads nothing. -/
theorem Call.got_of_isIdle {call : Call} (idle : call.isIdle = true) : call.got = [] := by
  cases call with
  | read connection answer =>
      obtain rfl := Option.isNone_iff_eq_none.mp idle
      rfl
  | listen | unlisten | await | dial | hangUp | write | pause => rfl

namespace Network

/-- The bytes in flight that the receiver may still read. -/
def Pipe.ahead (pipe : Pipe) : List UInt8 :=
  match pipe.stage with
  | .lost => []
  | .waiting _ | .accepted _ => pipe.flight

/-- The bytes in flight that the receiver may still read, those of the oldest connection first. -/
def Medium.ahead (medium : Medium) : List UInt8 :=
  medium.pipes.flatMap Pipe.ahead

/-- What can become of a connection unless the sender writes to it: it loses. -/
structure Pipe.Fades (pipe later : Pipe) : Prop where
  origin : later.origin = pipe.origin
  ahead : later.ahead.Sublist pipe.ahead
  whole : later.whole = true → pipe.whole = true ∧ later.flight = pipe.flight

/-- What can become of connections unless the sender writes to them. -/
abbrev Fades : List Pipe → List Pipe → Prop :=
  List.Forall₂ Pipe.Fades

namespace Pipe

theorem Fades.refl (pipe : Pipe) : pipe.Fades pipe :=
  ⟨rfl, .refl _, fun whole => ⟨whole, rfl⟩⟩

theorem Fades.trans {pipe next last : Pipe} (first : pipe.Fades next) (second : next.Fades last) :
    pipe.Fades last where
  origin := second.origin.trans first.origin
  ahead := second.ahead.trans first.ahead
  whole whole := by
    obtain ⟨was_whole, same⟩ := second.whole whole
    exact ⟨(first.whole was_whole).1, same.trans (first.whole was_whole).2⟩

theorem fades_without (gone : Stage) (pipe : Pipe) : pipe.Fades (pipe.without gone) := by
  unfold without
  split
  · exact ⟨rfl, List.nil_sublist _, fun whole => by cases whole⟩
  · exact .refl pipe

theorem fades_ended (connection : ConnectionId) (pipe : Pipe) :
    pipe.Fades (pipe.ended connection) := by
  unfold ended
  split
  · exact ⟨rfl, .refl _, fun whole => by cases whole⟩
  · exact .refl pipe

theorem fades_cut (left : Nat) (pipe : Pipe) : pipe.Fades (pipe.cut left) := by
  refine ⟨rfl, ?_, fun whole => by cases whole⟩
  unfold ahead cut
  cases pipe.stage with
  | lost => exact .refl _
  | waiting | accepted => exact List.take_sublist _ _

theorem fades_accepted {pipe : Pipe} {listener : ListenerId}
    (waits : pipe.stage = .waiting listener) (connection : ConnectionId) :
    pipe.Fades { pipe with stage := .accepted connection } := by
  refine ⟨rfl, ?_, fun whole => ⟨whole, rfl⟩⟩
  simp only [ahead, waits]
  exact .refl _

end Pipe

theorem fades_refl (pipes : List Pipe) : Fades pipes pipes :=
  List.forall₂_same.mpr fun pipe _ => .refl pipe

theorem fades_map {change : Pipe → Pipe} (fades : ∀ pipe : Pipe, pipe.Fades (change pipe))
    (pipes : List Pipe) : Fades pipes (pipes.map change) := by
  induction pipes with
  | nil => exact .nil
  | cons pipe pipes ih => exact .cons (fades pipe) ih

theorem fades_at (before after : List Pipe) {pipe later : Pipe} (fades : pipe.Fades later) :
    Fades (before ++ pipe :: after) (before ++ later :: after) := by
  induction before with
  | nil => exact .cons fades (fades_refl after)
  | cons first before ih => exact .cons (.refl first) ih

/-- What holds of all connections goes on to hold when it is kept where something changes. -/
theorem forall_at (Holds : Pipe → Prop) {before after : List Pipe} (pipe : Pipe) {later : Pipe}
    (kept : Holds pipe → Holds later) (all : ∀ other ∈ before ++ pipe :: after, Holds other) :
    ∀ other ∈ before ++ later :: after, Holds other := by
  obtain ⟨earlier, rest⟩ := List.forall_mem_append.mp all
  obtain ⟨first, last⟩ := List.forall_mem_cons.mp rest
  exact List.forall_mem_append.mpr ⟨earlier, List.forall_mem_cons.mpr ⟨kept first, last⟩⟩

theorem Fades.trans {pipes next last : List Pipe} (first : Fades pipes next)
    (second : Fades next last) : Fades pipes last := by
  induction first generalizing last with
  | nil => exact second
  | cons fades _ ih =>
      cases second with
      | cons fades' rest => exact .cons (Pipe.Fades.trans fades fades') (ih rest)

theorem Fades.ahead {pipes later : List Pipe} (fades : Fades pipes later) :
    (later.flatMap Pipe.ahead).Sublist (pipes.flatMap Pipe.ahead) := by
  induction fades with
  | nil => exact .refl _
  | cons first _ ih => exact first.ahead.append ih

/-- What is undisturbed has lost nothing. -/
theorem Fades.undisturbed {pipes later : List Pipe} (fades : Fades pipes later)
    (undisturbed : ∀ pipe ∈ later, pipe.whole = true) :
    (∀ pipe ∈ pipes, pipe.whole = true) ∧
      later.flatMap Pipe.flight = pipes.flatMap Pipe.flight := by
  induction fades with
  | nil => exact ⟨undisturbed, rfl⟩
  | cons first _ ih =>
      obtain ⟨whole, wholes⟩ := List.forall_mem_cons.mp undisturbed
      obtain ⟨was_whole, same⟩ := first.whole whole
      obtain ⟨were_whole, all_same⟩ := ih wholes
      refine ⟨List.forall_mem_cons.mpr ⟨was_whole, were_whole⟩, ?_⟩
      rw [List.flatMap_cons, List.flatMap_cons, same, all_same]

theorem Fades.exists_of_mem {pipes later : List Pipe} (fades : Fades pipes later) {pipe : Pipe}
    (member : pipe ∈ later) : ∃ was ∈ pipes, was.Fades pipe := by
  induction fades with
  | nil => cases member
  | cons first _ ih =>
      rcases List.mem_cons.mp member with rfl | is_later
      · exact ⟨_, List.mem_cons_self, first⟩
      · obtain ⟨was, is_old, fades⟩ := ih is_later
        exact ⟨was, List.mem_cons_of_mem _ is_old, fades⟩

/-- All connections but the last one were closed or cut. -/
def Latest (pipes : List Pipe) : Prop :=
  pipes.Pairwise fun earlier _ => earlier.whole = false

theorem Fades.latest {pipes later : List Pipe} (fades : Fades pipes later) (latest : Latest pipes) :
    Latest later := by
  induction fades with
  | nil => exact .nil
  | cons first rest ih =>
      obtain ⟨head, tail⟩ := List.pairwise_cons.mp latest
      refine List.pairwise_cons.mpr ⟨?_, ih tail⟩
      intro other member
      obtain ⟨was, is_old, _⟩ := Fades.exists_of_mem rest member
      refine Bool.eq_false_iff.mpr fun whole => ?_
      cases (head was is_old).symm.trans (first.whole whole).1

/-- The only connection that can be whole is the last one. -/
theorem Latest.eq_nil {before after : List Pipe} {pipe : Pipe}
    (latest : Latest (before ++ pipe :: after))
    (undisturbed : ∀ other ∈ before ++ pipe :: after, other.whole = true) : before = [] := by
  cases before with
  | nil => rfl
  | cons first before =>
      have member : pipe ∈ before ++ pipe :: after :=
        List.mem_append_right before List.mem_cons_self
      have broken := List.rel_of_pairwise_cons latest member
      cases broken.symm.trans (undisturbed first List.mem_cons_self)

/-- What is read from a connection does not matter to whether it is the last one. -/
theorem Latest.at {before after : List Pipe} {pipe later : Pipe}
    (latest : Latest (before ++ pipe :: after)) (same : later.whole = pipe.whole) :
    Latest (before ++ later :: after) := by
  obtain ⟨first, rest, apart⟩ := List.pairwise_append.mp latest
  obtain ⟨broken, tail⟩ := List.pairwise_cons.mp rest
  refine List.pairwise_append.mpr ⟨first, List.pairwise_cons.mpr ⟨?_, tail⟩, ?_⟩
  · rwa [same]
  · intro earlier member _ _
    exact apart earlier member pipe List.mem_cons_self

theorem Latest.exists_eq_singleton {pipes : List Pipe} (latest : Latest pipes)
    (undisturbed : ∀ pipe ∈ pipes, pipe.whole = true) (some_left : pipes ≠ []) :
    ∃ pipe, pipes = [pipe] := by
  rcases List.eq_nil_or_concat pipes with none_left | ⟨before, pipe, rfl⟩
  · contradiction
  · refine ⟨pipe, ?_⟩
    rw [List.concat_eq_append] at latest undisturbed ⊢
    rw [latest.eq_nil undisturbed, List.nil_append]

namespace Pipe

variable (connection : ConnectionId) (bytes : List UInt8) (pipe : Pipe)

@[simp]
theorem carrying_origin : (pipe.carrying connection bytes).origin = pipe.origin := by
  unfold carrying
  split
  · rfl
  · rfl

@[simp]
theorem carrying_whole : (pipe.carrying connection bytes).whole = pipe.whole := by
  unfold carrying
  split
  · rfl
  · rfl

theorem ahead_carrying :
    (pipe.carrying connection bytes).ahead.Sublist (pipe.ahead ++ bytes) := by
  unfold carrying
  split
  · unfold ahead
    cases pipe.stage with
    | lost => exact List.nil_sublist _
    | waiting | accepted => exact .refl _
  · exact List.sublist_append_left _ _

variable {connection bytes pipe}

theorem carrying_of_broken (broken : pipe.whole = false) :
    pipe.carrying connection bytes = pipe := by
  refine if_neg fun carries => ?_
  cases broken.symm.trans carries.2

theorem carrying_of_whole (whole : pipe.whole = true) :
    pipe.carrying pipe.origin bytes = { pipe with flight := pipe.flight ++ bytes } :=
  if_pos ⟨rfl, whole⟩

end Pipe

/-- A write adds what it takes to the end of what the receiver may still read, or loses it. -/
theorem Latest.ahead_carrying {pipes : List Pipe} (latest : Latest pipes)
    (connection : ConnectionId) (bytes : List UInt8) :
    ((pipes.map (.carrying connection bytes)).flatMap Pipe.ahead).Sublist
      (pipes.flatMap Pipe.ahead ++ bytes) := by
  induction pipes with
  | nil => exact List.nil_sublist bytes
  | cons pipe pipes ih =>
      obtain ⟨head, tail⟩ := List.pairwise_cons.mp latest
      cases pipes with
      | nil =>
          rw [List.map_singleton, List.flatMap_singleton, List.flatMap_singleton]
          exact pipe.ahead_carrying connection bytes
      | cons next pipes =>
          have same : pipe.carrying connection bytes = pipe :=
            Pipe.carrying_of_broken (head next List.mem_cons_self)
          rw [List.map_cons, List.flatMap_cons, List.flatMap_cons, List.append_assoc, same]
          exact (ih tail).append_left pipe.ahead

/-- The ports of a sender are selected before anything is put into its queue. -/
def PortsFirst (moves : List Move) : Prop :=
  moves.Pairwise fun earlier later => earlier.queued ≠ [] → later.portByte? = none

/-- The bytes that some moves put into the queue. -/
def enqueued (moves : List Move) : List UInt8 :=
  moves.flatMap Move.queued

/--
With some bytes read and some moves of the sender behind: what was read, what
is in flight and what waits are from the queue, in its order, and only the
connection that the sender holds can be whole.
-/
structure Carries (hold : Hold) (medium : Medium) (got : List UInt8) (moves : List Move) :
    Prop where
  ordered : (got ++ medium.ahead ++ hold.queue).Sublist (enqueued moves)
  balanced : medium.Undisturbed → PortsFirst moves →
    got ++ medium.inFlight ++ hold.queue = enqueued moves
  held : ∀ pipe ∈ medium.pipes, pipe.whole = true → hold.connection = some pipe.origin
  latest : Latest medium.pipes
  dialed : hold.connection.isSome → medium.pipes ≠ []

namespace Carries

variable {hold next : Hold} {medium medium' : Medium} {got : List UInt8} {moves : List Move}
  {connection : ConnectionId}

theorem blank : Carries {} {} [] [] where
  ordered := .refl []
  balanced _ _ := rfl
  held _ member := by cases member
  latest := .nil
  dialed connected := by cases connected

theorem fade (carries : Carries hold medium got moves) (fades : Fades medium.pipes medium'.pipes) :
    Carries hold medium' got moves where
  ordered := ((fades.ahead.append_left got).append_right hold.queue).trans carries.ordered
  balanced undisturbed first := by
    obtain ⟨was_undisturbed, same⟩ := fades.undisturbed undisturbed
    rw [Medium.inFlight, same]
    exact carries.balanced was_undisturbed first
  held pipe member whole := by
    obtain ⟨was, is_old, fade⟩ := fades.exists_of_mem member
    rw [fade.origin]
    exact carries.held was is_old (fade.whole whole).1
  latest := fades.latest carries.latest
  dialed connected nothing := by
    rw [nothing] at fades
    exact carries.dialed connected (List.forall₂_nil_right_iff.mp fades)

theorem dial (carries : Carries hold medium got moves) (nothing : hold.connection = none)
    (connection : ConnectionId) (listener : ListenerId) :
    Carries { hold with connection := some connection }
      { medium with pipes :=
          medium.pipes ++ [{ origin := connection, stage := .waiting listener }] }
      got moves := by
  have broken : ∀ pipe ∈ medium.pipes, pipe.whole = false := by
    intro pipe member
    refine Bool.eq_false_iff.mpr fun whole => ?_
    cases nothing.symm.trans (carries.held pipe member whole)
  constructor
  · rw [Medium.ahead, List.flatMap_append, List.flatMap_singleton]
    exact List.append_nil medium.ahead ▸ carries.ordered
  · intro undisturbed first
    rw [Medium.inFlight, List.flatMap_append, List.flatMap_singleton, List.append_nil]
    exact carries.balanced (List.forall_mem_append.mp undisturbed).1 first
  · intro pipe member whole
    rcases List.mem_append.mp member with is_old | is_new
    · cases (broken pipe is_old).symm.trans whole
    · cases List.mem_singleton.mp is_new
      rfl
  · refine List.pairwise_append.mpr ⟨carries.latest, List.pairwise_singleton _ _, ?_⟩
    intro earlier is_old _ _
    exact broken earlier is_old
  · intro _
    exact List.append_ne_nil_of_right_ne_nil _ (List.cons_ne_nil _ [])

/-- The bytes that a write takes are in flight, or lost. -/
theorem write (carries : Carries hold medium got moves)
    (connected : hold.connection = some connection) {bytes rest : List UInt8}
    (queued : hold.queue = bytes ++ rest) (taken : Nat) :
    Carries { hold with queue := bytes.drop taken ++ rest }
      { medium with pipes := medium.pipes.map (.carrying connection (bytes.take taken)) }
      got moves := by
  have parts : bytes.take taken ++ (bytes.drop taken ++ rest) = hold.queue := by
    rw [← List.append_assoc, List.take_append_drop, queued]
  constructor
  · have more := carries.latest.ahead_carrying connection (bytes.take taken)
    have ordered := carries.ordered
    rw [← parts, List.append_assoc, ← List.append_assoc medium.ahead] at ordered
    rw [List.append_assoc]
    exact ((more.append_right _).append_left got).trans ordered
  · intro undisturbed first
    have was_undisturbed : medium.Undisturbed := by
      intro pipe member
      have whole := undisturbed _ (List.mem_map_of_mem member)
      rwa [Pipe.carrying_whole] at whole
    obtain ⟨pipe, single⟩ := carries.latest.exists_eq_singleton was_undisturbed
      (carries.dialed (Option.isSome_iff_exists.mpr ⟨connection, connected⟩))
    have member : pipe ∈ medium.pipes := by
      rw [single]
      exact List.mem_singleton_self pipe
    have whole := was_undisturbed pipe member
    obtain rfl := Option.some.inj (connected.symm.trans (carries.held pipe member whole))
    have balanced := carries.balanced was_undisturbed first
    rw [← parts, Medium.inFlight, single, List.flatMap_singleton] at balanced
    rw [Medium.inFlight, single, List.map_singleton, List.flatMap_singleton,
      Pipe.carrying_of_whole whole, ← balanced]
    simp only [List.append_assoc]
  · intro pipe member whole
    obtain ⟨was, is_old, rfl⟩ := List.mem_map.mp member
    rw [Pipe.carrying_whole] at whole
    rw [Pipe.carrying_origin]
    exact carries.held was is_old whole
  · refine List.pairwise_map.mpr (carries.latest.imp fun broken => ?_)
    rwa [Pipe.carrying_whole]
  · intro connected nothing
    exact carries.dialed connected (List.map_eq_nil_iff.mp nothing)

/-- When the sender hangs up, none of its connections is whole any more. -/
theorem hangUp (carries : Carries hold medium got moves)
    (connected : hold.connection = some connection) :
    Carries { hold with connection := none }
      { medium with pipes := medium.pipes.map (.ended connection) } got moves := by
  have faded : Carries hold { medium with pipes := medium.pipes.map (.ended connection) } got
      moves :=
    carries.fade (fades_map (Pipe.fades_ended connection) medium.pipes)
  refine ⟨faded.ordered, faded.balanced, ?_, faded.latest, fun connected => by cases connected⟩
  intro pipe member whole
  have origin := Option.some.inj (connected.symm.trans (faded.held pipe member whole))
  obtain ⟨was, _, rfl⟩ := List.mem_map.mp member
  unfold Pipe.ended at origin whole
  split at whole
  · cases whole
  · next other =>
      rw [if_neg other] at origin
      exact absurd origin.symm other

/-- The first byte in flight comes from the only connection that is not lost. -/
theorem read (carries : Carries hold medium got moves) {receiving : Hold}
    (tracks : Tracks receiving medium) {before after : List Pipe} {pipe : Pipe}
    (pipes : medium.pipes = before ++ pipe :: after) (accepted : pipe.stage = .accepted connection)
    {byte : UInt8} {rest : List UInt8} (first : pipe.flight = byte :: rest) :
    Carries hold { medium with pipes := before ++ { pipe with flight := rest } :: after }
      (got ++ [byte]) moves := by
  have nothing : before.flatMap Pipe.ahead = [] := by
    refine List.flatMap_eq_nil_iff.mpr fun other member => ?_
    rw [Pipe.ahead, tracks.lost_before pipes accepted other member]
  obtain ⟨ordered, balanced, held, latest, dialed⟩ := carries
  simp only [Medium.ahead, Medium.inFlight, Medium.Undisturbed, pipes, List.flatMap_append, nothing,
    List.flatMap_cons, Pipe.ahead, accepted, first] at ordered balanced held latest dialed
  constructor
  · simpa only [Medium.ahead, List.flatMap_append, nothing, List.flatMap_cons, Pipe.ahead, accepted,
      List.append_assoc, List.nil_append, List.cons_append] using ordered
  · intro undisturbed ports
    have was_undisturbed : ∀ other ∈ before ++ pipe :: after, other.whole = true :=
      forall_at (·.whole = true) { pipe with flight := rest } id undisturbed
    have none_before := latest.eq_nil was_undisturbed
    have same := balanced was_undisturbed ports
    rw [none_before] at same ⊢
    simpa only [Medium.inFlight, List.flatMap_nil, List.nil_append, List.flatMap_cons,
      List.append_assoc, List.cons_append] using same
  · exact forall_at (fun other => other.whole = true → hold.connection = some other.origin) pipe
      id held
  · exact latest.at rfl
  · intro _
    exact List.append_ne_nil_of_right_ne_nil before (List.cons_ne_nil _ after)

/-- A move that does not select a port puts something behind what waits, or nothing. -/
theorem done (carries : Carries hold medium got moves) {move : Move}
    (ordinary : move.portByte? = none) :
    Carries { hold with queue := move.leaves hold.queue } medium got (moves ++ [move]) := by
  have leaves : move.leaves hold.queue = hold.queue ++ move.queued := by
    cases move with
    | setPort byte => cases ordinary
    | setTimeout | enqueue | push | receive | reset | settle | approach | collect => rfl
  refine ⟨?_, ?_, carries.held, carries.latest, carries.dialed⟩
  · rw [enqueued, List.flatMap_append, List.flatMap_singleton, leaves, ← List.append_assoc]
    exact carries.ordered.append_right move.queued
  · intro undisturbed first
    have balanced := carries.balanced undisturbed (List.pairwise_append.mp first).1
    rw [enqueued, List.flatMap_append, List.flatMap_singleton, leaves, ← List.append_assoc,
      balanced, enqueued]

/-- If nothing was put into the queue before, a port is selected with nothing anywhere. -/
theorem setPort (carries : Carries hold medium got moves) (byte : UInt8) :
    Carries { hold with queue := [] } medium got (moves ++ [.setPort byte]) := by
  have same : enqueued (moves ++ [.setPort byte]) = enqueued moves := by
    rw [enqueued, List.flatMap_append, List.flatMap_singleton]
    exact List.append_nil (enqueued moves)
  refine ⟨?_, ?_, carries.held, carries.latest, carries.dialed⟩
  · rw [same, List.append_nil]
    exact (List.sublist_append_left _ hold.queue).trans carries.ordered
  · intro undisturbed first
    obtain ⟨before, _, apart⟩ := List.pairwise_append.mp first
    have nothing : enqueued moves = [] := by
      refine List.flatMap_eq_nil_iff.mpr fun move member => ?_
      by_contra queued
      cases apart move member _ (List.mem_singleton_self _) queued
    have balanced := carries.balanced undisturbed before
    rw [nothing] at balanced
    rw [same, nothing, List.append_nil]
    exact (List.append_eq_nil_iff.mp balanced).1

/-- The sender calls. -/
theorem sender (carries : Carries hold medium got moves) {call : Call}
    (deed : Deed hold (.call call) next) (step : Step medium (.sender (.call call)) medium') :
    Carries next medium' got moves := by
  cases step with
  | dial _ _ connection =>
      cases deed with
      | dial nothing => exact carries.dial nothing.2 connection _
  | write connection bytes taken =>
      cases deed with
      | write connected queued => exact carries.write connected queued taken
  | senderHangUp connection =>
      cases deed with
      | hangUp connected => exact carries.hangUp connected
  | senderIdle idle =>
      rw [deed.eq_of_isIdle idle]
      exact carries

/-- A move of the sender ends. -/
theorem senderDone (carries : Carries hold medium got moves) {move : Move}
    (deed : Deed hold (.done move) next) : Carries next medium got (moves ++ [move]) := by
  cases deed
  cases move with
  | setPort byte => exact carries.setPort byte
  | setTimeout | enqueue | push | receive | reset | settle | approach | collect =>
      exact carries.done rfl

/-- The receiver signals something; it reads from the only connection that is not lost. -/
theorem receiver (carries : Carries hold medium got moves) {receiving : Hold} {signal : Signal}
    (tracks : Tracks receiving medium) (step : Step medium (.receiver signal) medium') :
    Carries hold medium' (got ++ signal.got) moves := by
  have silent (nothing : signal.got = []) (fades : Fades medium.pipes medium'.pipes) :
      Carries hold medium' (got ++ signal.got) moves := by
    rw [nothing, List.append_nil]
    exact carries.fade fades
  cases step with
  | read pipes accepted first => exact carries.read tracks pipes accepted first
  | listen | receiverDone => exact silent rfl (fades_refl medium.pipes)
  | unlisten | refuse => exact silent rfl (fades_map (Pipe.fades_without _) medium.pipes)
  | @accept before after _ pipes _ waits connection =>
      refine silent rfl ?_
      have handed := fades_at before after (Pipe.fades_accepted waits connection)
      rw [← pipes] at handed
      exact handed.trans (fades_map (Pipe.fades_without _) _)
  | receiverHangUp connection => exact silent rfl (fades_map (Pipe.fades_without _) medium.pipes)
  | receiverIdle idle => exact silent (Call.got_of_isIdle idle) (fades_refl medium.pipes)

end Carries

/-- The bytes that the receiver has read, in a log of what happened. -/
def received (log : List Happening) : List UInt8 :=
  (receiverPart log).flatMap Signal.got

/-- The moves that the sender has ended, in a log of what happened. -/
def ended (log : List Happening) : List Move :=
  (senderPart log).filterMap Signal.move?

/-- The bytes of the sender that wait, in a log of what happened. -/
def waiting (log : List Happening) : List UInt8 :=
  (senderPart log).foldl Signal.leaves []

section

variable (log : List Happening) (signal : Signal)

@[simp]
theorem received_sender : received (log ++ [.sender signal]) = received log := by
  simp [received, receiverPart, Happening.receiver?]

@[simp]
theorem received_receiver :
    received (log ++ [.receiver signal]) = received log ++ signal.got := by
  simp [received, receiverPart, Happening.receiver?]

@[simp]
theorem received_cut : received (log ++ [.cut]) = received log := by
  simp [received, receiverPart, Happening.receiver?]

@[simp]
theorem ended_sender : ended (log ++ [.sender signal]) = ended log ++ signal.move?.toList := by
  cases signal with
  | call | done => simp [ended, senderPart, Happening.sender?, Signal.move?]

@[simp]
theorem ended_receiver : ended (log ++ [.receiver signal]) = ended log := by
  simp [ended, senderPart, Happening.sender?]

@[simp]
theorem ended_cut : ended (log ++ [.cut]) = ended log := by
  simp [ended, senderPart, Happening.sender?]

end

/-- At every moment, every byte put into the queue is accounted for. -/
theorem Joint.carries {log : List Happening} {sending receiving : Hold} {medium : Medium}
    (joint : Joint log sending receiving medium) :
    Carries sending medium (received log) (ended log) := by
  induction joint with
  | start => exact .blank
  | @sender _ _ _ _ _ _ signal _ deed step ih =>
      rw [received_sender, ended_sender]
      cases signal with
      | call call =>
          simp only [Signal.move?, Option.toList_none, List.append_nil]
          exact ih.sender deed step
      | done move =>
          cases step with
          | senderDone => exact ih.senderDone deed
  | receiver before _ step ih =>
      rw [received_receiver, ended_receiver]
      exact ih.receiver before.tracks step
  | cut _ step ih =>
      rw [received_cut, ended_cut]
      cases step with
      | @cut before after _ pipes left =>
          refine ih.fade ?_
          rw [pipes]
          exact fades_at before after (Pipe.fades_cut left _)

/-- A network with the transport and the world that it finds, and the moves that it makes. -/
structure Party (σ : Type) where
  transport : Transport σ
  world : σ
  addresses : Addresses
  moves : List Move

namespace Party

variable {σ : Type} (party : Party σ)

/-- All calls of a party with their answers, and the ends of its moves. -/
def signals : List Signal :=
  chronicle party.transport party.moves (fresh party.addresses) party.world

/-- The network behind all moves. -/
def network : Network :=
  (play party.transport party.moves (fresh party.addresses) party.world).1

/-- The bytes that its attempts to receive give. -/
def obtained : List UInt8 :=
  obtainedIn party.transport party.moves (fresh party.addresses) party.world

/-- Nothing is open and nothing waits at the start. -/
theorem start : Deeds {} [] (fresh party.addresses).hold :=
  .none

theorem deeds : Deeds {} party.signals party.network.hold :=
  chronicle_deeds party.transport party.moves party.world party.start

/-- Also the first signals of a party are a row of deeds. -/
theorem exists_deeds {signals : List Signal} (first : signals <+: party.signals) :
    ∃ hold, Deeds {} signals hold := by
  obtain ⟨later, whole⟩ := first
  have deeds := party.deeds
  rw [← whole] at deeds
  exact deeds.exists_of_append

end Party

/--
What is true of a sender and a receiver at any moment, in the middle of their
moves or between them.
-/
structure Delivers {σ τ : Type} (sender : Party σ) (receiver : Party τ) (log : List Happening)
    (medium : Medium) : Prop where
  /-- Every byte put into the queue is read at most once, and in the order of the queue. -/
  inOrder : (received log).Sublist (enqueued (ended log))
  /-- Without a loss, what was read, what is in flight and what waits are the bytes queued. -/
  balanced : medium.Undisturbed → PortsFirst (ended log) →
    received log ++ medium.inFlight ++ waiting log = enqueued (ended log)
  ended_prefix : ended log <+: sender.moves
  /-- Between its moves, what waits is in the queue of the sender. -/
  between : senderPart log = sender.signals →
    ended log = sender.moves ∧ waiting log = sender.network.queue.toList
  /-- Between its moves, what was read is what attempts to receive have given. -/
  attempts : receiverPart log = receiver.signals → received log = receiver.obtained

/-- A transport on which everything succeeds; its world is what can be read. -/
def obliging : Transport (List UInt8) where
  listen _ world := (some 0, world)
  unlisten _ world := world
  poll _ world := (.nobody, world)
  await _ _ world := (.peer 0, world)
  dial _ _ world := (some 0, world)
  hangUp _ world := world
  write _ _ bytes world := (some bytes.length, world)
  read _ _ world := (world.head?, world.tail)
  pause world := world
  patience _ := 0

/-- A party that receives two bytes. -/
def greeted : Party (List UInt8) :=
  ⟨obliging, [104, 105], {}, [.receive, .receive]⟩

/-- The first byte of a greeting has been read, and the second one is still in flight. -/
def greeting : List Happening :=
  [.receiver (.call (.listen ⟨({} : Addresses).listen, basePort⟩ (some 0))),
    .sender (.done (.enqueue 104)),
    .sender (.done (.enqueue 105)),
    .sender (.call (.dial ⟨({} : Addresses).target, basePort⟩ (some 0))),
    .receiver (.call (.await 0 (.peer 0))),
    .sender (.call (.write 0 [104, 105] (some 2))),
    .receiver (.call (.read 0 (some 104))),
    .receiver (.done .receive),
    .sender (.done .push)]

end Network

end TapeNet
