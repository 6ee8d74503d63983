import TapeNet.Proofs.Network.Attempts
import TapeNet.Proofs.Network.Closing
import TapeNet.Proofs.Network.Delivery

/-!
# Bytes are received from one connection at a time

Peers send on their connections at any time, and connections come and go.  The
bytes that attempts to receive give are, connection by connection in the order
in which these were opened, the first bytes that were sent on each of them:
what is read comes from the connection opened last, and one that was closed is
never read from again.
-/

namespace TapeNet

namespace Network

/-- What happens around a network: a signal of its own, or bytes that a peer sends. -/
inductive Occurrence where
  | own (signal : Signal)
  | sent (connection : ConnectionId) (bytes : List UInt8)

namespace Occurrence

/-- What the network signals. -/
def own? : Occurrence → Option Signal
  | own signal => some signal
  | sent _ _ => none

/-- The bytes that the peer of a connection sends. -/
def saidOn (connection : ConnectionId) : Occurrence → List UInt8
  | own _ => []
  | sent other bytes => if other = connection then bytes else []

end Occurrence

namespace Signal

/-- The connection that is opened: somebody answered a dial, or a listener handed over a peer. -/
def opens : Signal → List ConnectionId
  | .call (.dial _ answer) => answer.toList
  | .call (.await _ (.peer connection)) => [connection]
  | _ => []

/-- The byte that is read from a connection. -/
def gotFrom (connection : ConnectionId) : Signal → List UInt8
  | .call (.read other answer) => if other = connection then answer.toList else []
  | _ => []

theorem nodup_opens (signal : Signal) : signal.opens.Nodup := by
  unfold opens
  split
  · next answer =>
      cases answer with
      | none | some connection => simp
  · exact List.pairwise_singleton _ _
  · exact .nil

theorem gotFrom_cases (signal : Signal) (connection : ConnectionId) :
    signal.gotFrom connection = [] ∨ ∃ byte, signal = .call (.read connection (some byte)) := by
  unfold gotFrom
  split
  · next other answer =>
      split
      · next same =>
          subst same
          cases answer with
          | none => exact .inl rfl
          | some byte => exact .inr ⟨byte, rfl⟩
      · exact .inl rfl
  · exact .inl rfl

/-- What ends a connection: its closing, a read that fails, a dial, a choice of a port, a reset. -/
inductive Ends (connection : ConnectionId) : Signal → Prop where
  | hangUp : Ends connection (.call (.hangUp connection))
  | failed : Ends connection (.call (.read connection none))
  | redial (place : Endpoint) (answer : Option ConnectionId) :
      Ends connection (.call (.dial place answer))
  | setPort (byte : UInt8) : Ends connection (.done (.setPort byte))
  | reset : Ends connection (.done .reset)

end Signal

/-- The connections that were opened, in this order. -/
def openings (signals : List Signal) : List ConnectionId :=
  signals.flatMap Signal.opens

/-- The bytes that were read. -/
def got (signals : List Signal) : List UInt8 :=
  signals.flatMap Signal.got

/-- The bytes that were read from a connection. -/
def gotFrom (connection : ConnectionId) (signals : List Signal) : List UInt8 :=
  signals.flatMap (Signal.gotFrom connection)

/-- What the network signals in a log. -/
def ownPart (log : List Occurrence) : List Signal :=
  log.filterMap Occurrence.own?

/-- The bytes that the peer of a connection has sent. -/
def saidOn (connection : ConnectionId) (log : List Occurrence) : List UInt8 :=
  log.flatMap (Occurrence.saidOn connection)

/--
A log that can be: no two connections have one name, and a read takes the
first of the bytes that were sent on its connection and not yet read.
-/
inductive Course : List Occurrence → Prop where
  | start : Course []
  | sent {log : List Occurrence} (course : Course log) (connection : ConnectionId)
      (bytes : List UInt8) : Course (log ++ [.sent connection bytes])
  | own {log : List Occurrence} (course : Course log) {signal : Signal}
      (new : ∀ connection ∈ signal.opens, connection ∉ openings (ownPart log))
      (next : ∀ connection byte, signal = .call (.read connection (some byte)) →
        (saidOn connection log)[(gotFrom connection (ownPart log)).length]? = some byte) :
      Course (log ++ [.own signal])

section

variable (signals : List Signal) (signal : Signal) (log : List Occurrence)
  (connection : ConnectionId)

@[simp]
theorem openings_snoc : openings (signals ++ [signal]) = openings signals ++ signal.opens := by
  rw [openings, List.flatMap_append, List.flatMap_singleton, openings]

@[simp]
theorem got_snoc : got (signals ++ [signal]) = got signals ++ signal.got := by
  rw [got, List.flatMap_append, List.flatMap_singleton, got]

@[simp]
theorem gotFrom_snoc :
    gotFrom connection (signals ++ [signal]) =
      gotFrom connection signals ++ signal.gotFrom connection := by
  rw [gotFrom, List.flatMap_append, List.flatMap_singleton, gotFrom]

@[simp]
theorem ownPart_own : ownPart (log ++ [.own signal]) = ownPart log ++ [signal] := by
  simp [ownPart, Occurrence.own?]

@[simp]
theorem ownPart_sent (bytes : List UInt8) :
    ownPart (log ++ [.sent connection bytes]) = ownPart log := by
  simp [ownPart, Occurrence.own?]

@[simp]
theorem saidOn_own : saidOn connection (log ++ [.own signal]) = saidOn connection log := by
  simp [saidOn, Occurrence.saidOn]

theorem isPrefix_saidOn (occurrence : Occurrence) :
    saidOn connection log <+: saidOn connection (log ++ [occurrence]) := by
  rw [saidOn, saidOn, List.flatMap_append]
  exact List.prefix_append _ _

end

/-- What a deed reads is from the connection that is open. -/
theorem Deed.got_cases {hold next : Hold} {signal : Signal} (deed : Deed hold signal next) :
    (∃ connection byte, signal = .call (.read connection (some byte)) ∧
        hold.connection = some connection) ∨
      signal.got = [] ∧ ∀ connection, signal.gotFrom connection = [] := by
  cases deed with
  | read connected answer =>
      cases answer with
      | some byte => exact .inl ⟨_, byte, rfl, connected⟩
      | none => exact .inr ⟨rfl, fun other => ite_self []⟩
  | listen | unlisten | await | dial | hangUp | write | pause | done =>
      exact .inr ⟨rfl, fun _ => rfl⟩

/-- What becomes of the connection that is open: it stays, or it is closed, or another is opened. -/
theorem Deed.connection_cases {hold next : Hold} {signal : Signal}
    (deed : Deed hold signal next) :
    (signal.opens = [] ∧ (next.connection = hold.connection ∨ next.connection = none)) ∨
      ∃ connection, signal.opens = [connection] ∧ next.connection = some connection := by
  cases deed with
  | await waits arrival =>
      cases arrival with
      | nobody | failed => exact .inl ⟨rfl, .inl rfl⟩
      | peer connection => exact .inr ⟨connection, rfl, rfl⟩
  | dial nothing place answer =>
      cases answer with
      | none => exact .inl ⟨rfl, .inr rfl⟩
      | some connection => exact .inr ⟨connection, rfl, rfl⟩
  | hangUp => exact .inl ⟨rfl, .inr rfl⟩
  | listen | unlisten | read | write | pause | done => exact .inl ⟨rfl, .inl rfl⟩

/-- What was read is sorted by connections, and the one that is open was opened last. -/
structure Sorted (hold : Hold) (signals : List Signal) : Prop where
  grouped : got signals = (openings signals).flatMap (gotFrom · signals)
  unheard : ∀ connection ∉ openings signals, gotFrom connection signals = []
  latest : ∀ connection, hold.connection = some connection →
    ∃ earlier, openings signals = earlier ++ [connection]

namespace Sorted

variable {hold next : Hold} {signals : List Signal} {signal : Signal} {connection : ConnectionId}

/-- A byte is read from the connection opened last, so its group is the last one. -/
theorem read (sorted : Sorted hold signals) (once : (openings signals).Nodup)
    (connected : hold.connection = some connection) (byte : UInt8) :
    Sorted hold (signals ++ [.call (.read connection (some byte))]) := by
  obtain ⟨earlier, last⟩ := sorted.latest connection connected
  have same : openings (signals ++ [.call (.read connection (some byte))]) = openings signals := by
    rw [openings_snoc]
    exact List.append_nil _
  have apart : ∀ other ∈ earlier,
      gotFrom other (signals ++ [.call (.read connection (some byte))]) =
        gotFrom other signals := by
    intro other member
    rw [last] at once
    have distinct := (List.nodup_append.mp once).2.2 other member connection List.mem_cons_self
    rw [gotFrom_snoc, Signal.gotFrom, if_neg (Ne.symm distinct), List.append_nil]
  refine ⟨?_, ?_, ?_⟩
  · have grouped := sorted.grouped
    rw [last, List.flatMap_append, List.flatMap_singleton] at grouped
    rw [same, last, List.flatMap_append, List.flatMap_singleton, List.flatMap_congr apart,
      got_snoc, grouped, gotFrom_snoc, List.append_assoc]
    simp only [Signal.got, Call.got, Signal.gotFrom, if_true]
  · intro other new
    rw [same] at new
    have distinct : connection ≠ other := by
      rintro rfl
      exact new (last ▸ List.mem_append_right earlier List.mem_cons_self)
    rw [gotFrom_snoc, sorted.unheard other new, Signal.gotFrom, if_neg distinct, List.append_nil]
  · rw [same]
    exact sorted.latest

/-- A signal that reads nothing leaves the groups as they are, or adds an empty one. -/
theorem quiet (sorted : Sorted hold signals) (nothing : signal.got = [])
    (silent : ∀ connection, signal.gotFrom connection = [])
    (once : (openings (signals ++ [signal])).Nodup)
    (latest : ∀ connection, next.connection = some connection →
      ∃ earlier, openings (signals ++ [signal]) = earlier ++ [connection]) :
    Sorted next (signals ++ [signal]) := by
  have same : ∀ connection,
      gotFrom connection (signals ++ [signal]) = gotFrom connection signals := by
    intro connection
    rw [gotFrom_snoc, silent, List.append_nil]
  rw [openings_snoc] at once latest
  refine ⟨?_, ?_, ?_⟩
  · have empty : signal.opens.flatMap (gotFrom · signals) = [] := by
      refine List.flatMap_eq_nil_iff.mpr fun connection member => sorted.unheard connection ?_
      intro old
      exact (List.nodup_append.mp once).2.2 connection old connection member rfl
    rw [got_snoc, nothing, List.append_nil, openings_snoc, sorted.grouped]
    simp only [same, List.flatMap_append, empty, List.append_nil]
  · intro connection new
    rw [openings_snoc] at new
    rw [same]
    exact sorted.unheard connection fun old => new (List.mem_append_left _ old)
  · rw [openings_snoc]
    exact latest

end Sorted

theorem Deeds.sorted {signals : List Signal} {hold : Hold} (deeds : Deeds {} signals hold)
    (once : (openings signals).Nodup) : Sorted hold signals := by
  induction deeds with
  | none => exact ⟨rfl, fun _ _ => rfl, fun _ connected => nomatch connected⟩
  | @more signals hold next signal before deed ih =>
      have once_before : (openings signals).Nodup := by
        rw [openings_snoc] at once
        exact (List.nodup_append.mp once).1
      have sorted := ih once_before
      rcases deed.got_cases with ⟨connection, byte, rfl, connected⟩ | ⟨nothing, silent⟩
      · cases deed with
        | read => exact sorted.read once_before connected byte
      · refine sorted.quiet nothing silent once ?_
        intro connection connected
        rw [openings_snoc]
        rcases deed.connection_cases with ⟨no_new, kept | closed⟩ | ⟨_, is_new, opens⟩
        · rw [no_new, List.append_nil]
          exact sorted.latest connection (kept ▸ connected)
        · cases closed.symm.trans connected
        · obtain rfl := Option.some.inj (opens.symm.trans connected)
          exact ⟨openings signals, by rw [is_new]⟩

/-- A connection that is not open and is not opened is not read from. -/
theorem Deeds.gotFrom_eq_nil {middle last : Hold} {after : List Signal}
    (deeds : Deeds middle after last) {connection : ConnectionId}
    (closed : middle.connection ≠ some connection) (gone : connection ∉ openings after) :
    gotFrom connection after = [] ∧ last.connection ≠ some connection := by
  induction deeds with
  | none => exact ⟨rfl, closed⟩
  | @more after hold next signal before deed ih =>
      rw [openings_snoc, List.mem_append, not_or] at gone
      obtain ⟨silent, still⟩ := ih gone.1
      refine ⟨?_, ?_⟩
      · rw [gotFrom_snoc, silent, List.nil_append]
        rcases deed.got_cases with ⟨other, byte, rfl, connected⟩ | ⟨_, nothing⟩
        · refine if_neg ?_
          rintro rfl
          exact still connected
        · exact nothing connection
      · rcases deed.connection_cases with ⟨_, kept | ended⟩ | ⟨other, opens, connected⟩
        · rwa [kept]
        · rw [ended]
          exact nofun
        · rw [connected]
          intro same
          obtain rfl := Option.some.inj same
          exact gone.2 (opens ▸ List.mem_cons_self)

/-- Behind the end of a move, a chronicle goes on with the network that the move left. -/
theorem exists_of_chronicle {σ : Type} (transport : Transport σ) {moves : List Move} {net : Network}
    {world : σ} {front rest : List Signal} {move : Move}
    (whole : chronicle transport moves net world = front ++ .done move :: rest) :
    ∃ later before past, rest = chronicle transport later (move.make transport before past).1
      (move.make transport before past).2 := by
  induction moves generalizing net world front with
  | nil => cases List.append_ne_nil_of_right_ne_nil front (List.cons_ne_nil _ rest) whole.symm
  | cons first moves ih =>
      -- The end of the move is that of the first one, or it comes later: calls are no ends.
      rw [chronicle] at whole
      rcases List.append_eq_append_iff.mp whole with ⟨middle, rfl, tail⟩ | ⟨middle, calls, tail⟩
      · cases middle with
        | nil =>
            obtain ⟨same, rfl⟩ := List.cons.inj tail
            cases same
            exact ⟨moves, net, world, rfl⟩
        | cons signal middle => exact ih (List.cons.inj tail).2
      · cases middle with
        | nil =>
            obtain ⟨same, rfl⟩ := List.cons.inj tail
            cases same
            exact ⟨moves, net, world, rfl⟩
        | cons signal middle =>
            obtain ⟨rfl, _⟩ := List.cons.inj tail
            have member : .done move ∈ front ++ .done move :: middle :=
              List.mem_append_right front List.mem_cons_self
            rw [← calls] at member
            obtain ⟨_, _, other⟩ := List.mem_map.mp member
            cases other

/-- Nothing is read between a read that fails and the closing of its connection. -/
theorem gotFrom_closure (listener : Option ListenerId) (closed connection : ConnectionId) :
    gotFrom connection (closure listener closed) = [] := by
  cases listener with
  | none | some bound => rfl

/-- In a course, names are given once and every connection is read from its start. -/
theorem Course.once {log : List Occurrence} (course : Course log) :
    (openings (ownPart log)).Nodup := by
  induction course with
  | start => exact .nil
  | sent _ connection bytes ih => rwa [ownPart_sent]
  | @own log _ signal new _ ih =>
      rw [ownPart_own, openings_snoc]
      refine List.nodup_append.mpr ⟨ih, signal.nodup_opens, ?_⟩
      rintro connection before _ now rfl
      exact new connection now before

theorem Course.isPrefix {log : List Occurrence} (course : Course log)
    (connection : ConnectionId) :
    gotFrom connection (ownPart log) <+: saidOn connection log := by
  induction course with
  | start => exact List.nil_prefix
  | sent _ other bytes ih =>
      rw [ownPart_sent]
      exact ih.trans (isPrefix_saidOn _ _ _)
  | @own log _ signal _ next ih =>
      rw [ownPart_own, gotFrom_snoc, saidOn_own]
      rcases signal.gotFrom_cases connection with silent | ⟨byte, rfl⟩
      · rwa [silent, List.append_nil]
      · have first := next connection byte rfl
        obtain ⟨unread, said⟩ := ih
        rw [← said, List.getElem?_append_right (Nat.le_refl _), Nat.sub_self] at first
        rw [← said]
        refine List.prefix_append_right_inj _ |>.mpr ?_
        cases unread with
        | nil => cases first
        | cons head unread =>
            obtain rfl := Option.some.inj first
            rw [Signal.gotFrom, if_pos rfl]
            exact List.prefix_append [head] unread

section

variable {signals before after : List Signal} {signal : Signal} {connection : ConnectionId}

theorem gone_of_nodup (once : (openings (before ++ signal :: after)).Nodup)
    (old : connection ∈ openings before) :
    connection ∉ signal.opens ∧ connection ∉ openings after := by
  rw [openings, List.flatMap_append, List.flatMap_cons] at once
  have apart := (List.nodup_append.mp once).2.2 connection old connection
  refine ⟨?_, ?_⟩
  · intro now
    exact apart (List.mem_append_left _ now) rfl
  · intro later
    exact apart (List.mem_append_right _ later) rfl

/-- A signal in the middle of a row. -/
theorem Deeds.exists_behind {start last : Hold}
    (deeds : Deeds start (before ++ signal :: after) last) :
    ∃ hold next, Deed hold signal next ∧ Deeds next after last := by
  rw [List.append_cons] at deeds
  obtain ⟨next, first, rest⟩ := deeds.exists_parts
  obtain ⟨hold, _, deed⟩ := first.exists_of_snoc
  exact ⟨hold, next, deed, rest⟩

/-- A connection that was closed is not read from again. -/
theorem silent_of_hangUp {start last : Hold}
    (deeds : Deeds start (before ++ .call (.hangUp connection) :: after) last)
    (gone : connection ∉ openings after) : gotFrom connection after = [] := by
  obtain ⟨hold, next, deed, rest⟩ := deeds.exists_behind
  cases deed with
  | hangUp => exact (rest.gotFrom_eq_nil nofun gone).1

/-- A connection that gave nothing is not read from again: it is closed next. -/
theorem silent_of_failed {start last : Hold} (more : List Signal)
    (deeds : Deeds start (before ++ .call (.read connection none) :: after) last)
    (tidy : Tidy (before ++ .call (.read connection none) :: after ++ more))
    (gone : connection ∉ openings after) : gotFrom connection after = [] := by
  obtain ⟨listener, closed⟩ := tidy before connection (after ++ more) (List.append_assoc _ _ _)
  have nothing := gotFrom_closure listener connection connection
  -- The row goes on behind the closing, or it stops in the middle of it.
  rcases List.prefix_or_prefix_of_prefix closed (List.prefix_append after more) with
    ⟨rest, rfl⟩ | ⟨rest, whole⟩
  · rw [openings, List.flatMap_append, List.mem_append, not_or] at gone
    rw [closure, List.map_append, List.append_assoc, ← List.cons_append, ← List.append_assoc]
      at deeds
    have silent := silent_of_hangUp deeds gone.2
    rw [gotFrom, List.flatMap_append]
    exact List.append_eq_nil_iff.mpr ⟨nothing, silent⟩
  · rw [← whole, gotFrom, List.flatMap_append] at nothing
    exact (List.append_eq_nil_iff.mp nothing).1

/-- Nothing is open behind a dial that nobody answers, and otherwise a new connection. -/
theorem silent_of_dial {start last : Hold} {place : Endpoint} {answer : Option ConnectionId}
    (deeds : Deeds start (before ++ .call (.dial place answer) :: after) last)
    (other : connection ∉ answer.toList) (gone : connection ∉ openings after) :
    gotFrom connection after = [] := by
  obtain ⟨hold, next, deed, rest⟩ := deeds.exists_behind
  cases deed with
  | dial => exact (rest.gotFrom_eq_nil (fun same => other (Option.mem_toList.mpr same)) gone).1

end

namespace Party

variable {σ : Type} (party : Party σ) {signals before after more : List Signal}

/-- Nothing that was open is read from behind a move that closes everything. -/
theorem silent_of_closing {move : Move} {connection : ConnectionId}
    (whole : party.signals = before ++ .done move :: (after ++ more))
    (closes : ∀ net world, (move.make party.transport net world).1.connection = none)
    (gone : connection ∉ openings after) : gotFrom connection after = [] := by
  obtain ⟨later, net, world, rest⟩ := exists_of_chronicle party.transport whole
  have closed := closes net world
  generalize move.make party.transport net world = result at rest closed
  have deeds : Deeds result.1.hold (after ++ more)
      (play party.transport later result.1 result.2).1.hold := by
    rw [rest]
    exact chronicle_deeds party.transport later result.2 .none
  obtain ⟨middle, first, _⟩ := deeds.exists_parts
  have not_open : result.1.hold.connection ≠ some connection := by
    rw [hold, closed]
    exact (Option.some_ne_none connection).symm
  exact (first.gotFrom_eq_nil not_open gone).1

/-- A connection that has ended is not read from again. -/
theorem silent_of_ends {log : List Occurrence} (own : ownPart log <+: party.signals)
    (course : Course log) {signal : Signal} {connection : ConnectionId}
    (whole : ownPart log = before ++ signal :: after) (old : connection ∈ openings before)
    (ends : signal.Ends connection) : gotFrom connection after = [] := by
  obtain ⟨hold, deeds⟩ := party.exists_deeds own
  have once := course.once
  rw [whole] at deeds once
  obtain ⟨now, gone⟩ := gone_of_nodup once old
  obtain ⟨more, rest⟩ := own
  rw [whole] at rest
  cases ends with
  | hangUp => exact silent_of_hangUp deeds gone
  | failed =>
      have tidy := chronicle_tidy party.transport party.moves (fresh party.addresses) party.world
      exact silent_of_failed more deeds (by rw [rest]; exact tidy) gone
  | redial place answer => exact silent_of_dial deeds now gone
  | setPort byte | reset =>
      rw [List.append_assoc, List.cons_append] at rest
      exact party.silent_of_closing rest.symm (fun _ _ => rfl) gone

end Party

/-- What is true of the bytes that a party has read, in the middle of its moves or between them. -/
structure Streams {σ : Type} (party : Party σ) (log : List Occurrence) : Prop where
  /-- They are what was read from each connection, in the order in which these were opened. -/
  grouped : got (ownPart log) = (openings (ownPart log)).flatMap (gotFrom · (ownPart log))
  once : (openings (ownPart log)).Nodup
  /-- From every connection its first bytes were read, in their order. -/
  prefixes : ∀ connection, gotFrom connection (ownPart log) <+: saidOn connection log
  /-- A connection that has ended is not read from again. -/
  silent : ∀ {before after : List Signal} {signal : Signal} {connection : ConnectionId},
    ownPart log = before ++ signal :: after → connection ∈ openings before →
      signal.Ends connection → gotFrom connection after = []
  /-- Between its moves, what was read is what attempts to receive have given. -/
  attempts : ownPart log = party.signals → got (ownPart log) = party.obtained

/-- What is true of every receive, whatever is open and whatever the world does. -/
structure Receiving {σ : Type} (transport : Transport σ) : Prop where
  attempt : ∀ (net : Network) (world : σ),
    Attempt net (net.receiveOnce transport world).1 (net.receiveOnce transport world).2.1
      (net.receiveOnce transport.traced (world, [])).2.2.2
  whole : ∀ (net : Network) (world : σ),
    Received net (net.receive transport world).1 (net.receive transport world).2.1
      (net.receive transport.traced (world, [])).2.2.2
  /-- Nothing more is touched by its parts. -/
  approach : ∀ (net : Network) (world : σ), Spares net (net.approach transport world).2.1
  settle : ∀ (net : Network) (world : σ), Spares net (net.settle transport world).1
  collect : ∀ (net : Network) (world : σ), Spares net (net.collect transport world).2.1

theorem receiving {σ : Type} (transport : Transport σ) : Receiving transport where
  attempt := receiveOnce_attempt transport
  whole := receive_received transport
  approach := spares_approach transport
  settle := spares_settle transport
  collect := spares_collect transport

/--
Whatever a network does, whenever peers come and send, and whatever succeeds
or fails: the bytes that attempts to receive give are the first bytes of one
connection after another.
-/
theorem receives_streams {σ : Type} (party : Party σ) {log : List Occurrence}
    (own : ownPart log <+: party.signals) (course : Course log) :
    Streams party log ∧ Receiving party.transport := by
  obtain ⟨hold, deeds⟩ := party.exists_deeds own
  refine ⟨⟨(deeds.sorted course.once).grouped, course.once, course.isPrefix,
    party.silent_of_ends own course, ?_⟩, receiving party.transport⟩
  intro all
  rw [all]
  exact chronicle_got _ _ _ party.start

/-- A peer has sent three bytes, and the first two of them have been received. -/
def hearing : List Occurrence :=
  [.sent 0 [104],
    .own (.call (.listen ⟨({} : Addresses).listen, basePort⟩ (some 0))),
    .own (.call (.await 0 (.peer 0))),
    .own (.call (.read 0 (some 104))),
    .own (.done .receive),
    .sent 0 [105, 106],
    .own (.call (.read 0 (some 105))),
    .own (.done .receive)]

theorem hearing_course : Course hearing := by
  have listening : Course (hearing.take 2) :=
    (Course.start.sent 0 [104]).own (by decide) nofun
  have accepted : Course (hearing.take 3) := listening.own (by decide) nofun
  have first : Course (hearing.take 4) := by
    refine accepted.own (by decide) fun connection byte same => ?_
    cases same
    rfl
  have received : Course (hearing.take 5) := first.own (by decide) nofun
  have more : Course (hearing.take 6) := received.sent 0 [105, 106]
  have again : Course (hearing.take 7) := by
    refine more.own (by decide) fun connection byte same => ?_
    cases same
    rfl
  exact again.own (by decide) nofun

theorem receives_streams_hearing :
    (ownPart hearing <+: greeted.signals ∧ Course hearing) ∧
      Streams greeted hearing ∧ Receiving obliging := by
  have own : ownPart hearing <+: greeted.signals := by decide +kernel
  exact ⟨⟨own, hearing_course⟩, receives_streams greeted own hearing_course⟩

end Network

end TapeNet
