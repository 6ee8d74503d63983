import TapeNet.Proofs.Network.Delivery
import TapeNet.Proofs.Threads.Custody

/-!
# Only the current acceptor publishes, and at most once

An acceptor that is not tracked any more never publishes, in whatever order
the threads go on, and publishing ends the tracking.  Whenever the program
waits for an acceptor, it holds the lock, and the acceptor gets to its end
without needing the lock.
-/

namespace TapeNet

open Network

namespace Threads

/-- An acceptor that was spawned and is not tracked. -/
def Retired (threads : Threads) (listener : ListenerId) : Prop :=
  listener < threads.spawned ∧ threads.tracked ≠ some listener

/--
What leaves no acceptor tracked that was spawned before: taking one down,
setting up another, a dial, and the end of a choice of a port or a reset.
-/
inductive Action.Retires : Action → Prop where
  | cancel (listener : ListenerId) : Retires (.cancel listener)
  | bind (listener : ListenerId) : Retires (.bind listener)
  | listen (place : Endpoint) (answer : Option ListenerId) : Retires (.call (.listen place answer))
  | dial (place : Endpoint) (answer : Option ConnectionId) : Retires (.call (.dial place answer))
  | setPort (byte : UInt8) : Retires (.leave (.setPort byte))
  | reset : Retires (.leave .reset)

namespace Custody

variable {threads next : Threads} {action : Action} {listener : ListenerId}

/-- What the program tracks stays, or is a new acceptor, or nothing. -/
theorem tracked_cases (custody : Custody threads) (step : Step threads action next) :
    next.tracked = threads.tracked ∨ next.tracked = none ∨
      action = .bind threads.spawned ∧ next.tracked = some threads.spawned := by
  cases step with
  | enter locked outside free => exact .inl (by simp [tracked, outside])
  | call within plain legal =>
      have same := legal.tracks_of_isPlain plain
      exact .inl (by simp [tracked, within, same])
  | bind within legal vacant => exact .inr (.inr ⟨rfl, by simp [tracked, Call.tracks]⟩)
  | cancel within legal => exact .inr (.inl (by simp [tracked, Call.tracks]))
  | ready wakes | wake wakes | stray wakes | retry wakes | giveUp wakes | join wakes =>
      exact .inl (by simp [tracked, wakes])
  | leave within plays =>
      have same := plays.listener_eq
      exact .inl (by simp [tracked, within, same, Network.tracking])
  | visit => exact .inl rfl
  | act acts free =>
      rcases hands_cases acts with nothing | ⟨rfl, caller, publishes⟩
      · rw [nothing]
        exact .inl rfl
      · exact .inr (.inl (custody.tracked_of_publish publishes _ _))

theorem spawned_le (step : Step threads action next) : threads.spawned ≤ next.spawned := by
  cases step with
  | bind => exact Nat.le_succ _
  | enter | call | ready | cancel | wake | stray | retry | giveUp | join | leave | visit | act =>
      exact Nat.le_refl _

theorem retired_step (custody : Custody threads) (step : Step threads action next)
    (retired : threads.Retired listener) : next.Retired listener := by
  obtain ⟨spawned, untracked⟩ := retired
  refine ⟨Nat.lt_of_lt_of_le spawned (spawned_le step), ?_⟩
  rcases custody.tracked_cases step with same | nothing | ⟨_, another⟩
  · rwa [same]
  · rw [nothing]
    exact nofun
  · rw [another]
    exact fun same => Nat.ne_of_gt spawned (Option.some.inj same)

theorem ne_publish_of_retired (custody : Custody threads) (step : Step threads action next)
    (retired : threads.Retired listener) : action ≠ .act listener .publish := by
  rintro rfl
  cases step with
  | act acts free =>
      cases acts with
      | publish publishes => exact retired.2 (custody.publishes publishes).2

/-- Behind a choice of a port or a reset, nothing is tracked. -/
theorem listener_of_leave {net last : Network} {move : Move} {calls : List Call}
    (retires : Action.Retires (.leave move)) (plays : Plays net move calls last) :
    last.listener = none := by
  obtain ⟨σ, transport, world, following, made⟩ := plays
  cases retires with
  | setPort | reset => exact (congrArg (·.1.listener) made).symm

theorem tracked_of_retires (step : Step threads action next) (retires : action.Retires) :
    ∀ listener, next.tracked = some listener → threads.spawned ≤ listener := by
  intro listener
  cases step with
  | @call part within call plain legal =>
      have same := legal.tracks_of_isPlain plain
      have nothing : threads.net.tracking part.calls = none := by
        cases retires with
        | listen => exact legal.tracking_of_listen
        | dial => exact legal.tracking_of_dial
      rw [nothing] at same
      simp [tracked, nothing, same]
  | bind =>
      intro new
      simp [tracked, Call.tracks] at new
      exact Nat.le_of_eq new
  | cancel => simp [tracked, Call.tracks]
  | leave within plays =>
      have closed := listener_of_leave retires plays
      simp [tracked, Network.tracking, closed]
  | enter | ready | wake | stray | retry | giveUp | join | visit | act => cases retires

end Custody

/-- An acceptor that is retired never publishes. -/
theorem Run.silent {threads last : Threads} {actions : List Action} {listener : ListenerId}
    (run : Run threads actions last) (custody : Custody threads)
    (retired : threads.Retired listener) :
    .act listener .publish ∉ actions ∧ last.Retired listener := by
  induction run with
  | none => exact ⟨nofun, retired⟩
  | more before step ih =>
      obtain ⟨silent, still⟩ := ih
      have custody := before.custody custody
      refine ⟨?_, custody.retired_step step still⟩
      intro member
      rcases List.mem_append.mp member with earlier | now
      · exact silent earlier
      · exact custody.ne_publish_of_retired step still (List.mem_singleton.mp now).symm

/-- An act that neither takes the lock nor needs it. -/
def Act.isQuiet : Act → Bool
  | .accept | .fail | .look | .miss | .close => true
  | .seize | .publish | .release => false

/-- A quiet act, while the lock is held by somebody, changes nothing but the acceptor. -/
theorem Step.of_isQuiet {threads : Threads} {listener : ListenerId} {act : Act}
    {acceptor : Acceptor} (acts : (threads.acceptors listener).Acts act acceptor)
    (quiet : act.isQuiet = true) (held : threads.holder ≠ none) :
    Step threads (.act listener act) (threads.put listener acceptor) := by
  cases act with
  | accept | fail | look | close => exact .act acts trivial
  | miss => exact .act acts held
  | seize | publish | release => cases quiet

/-- Several quiet acts of an acceptor. -/
inductive Acceptor.Runs (acceptor : Acceptor) : List Act → Acceptor → Prop where
  | none : Runs acceptor [] acceptor
  | more {acts : List Act} {next last : Acceptor} {act : Act} (runs : Runs acceptor acts next)
      (step : next.Acts act last) (quiet : act.isQuiet = true) : Runs acceptor (acts ++ [act]) last

namespace Acceptor.Runs

variable {acceptor last : Acceptor} {acts : List Act}

theorem isQuiet (runs : acceptor.Runs acts last) : ∀ act ∈ acts, act.isQuiet = true := by
  induction runs with
  | none => exact nofun
  | more _ _ quiet ih =>
      exact List.forall_mem_append.mpr ⟨ih, List.forall_mem_singleton.mpr quiet⟩

theorem run {threads : Threads} {listener : ListenerId}
    (runs : (threads.acceptors listener).Runs acts last) (held : threads.holder ≠ Option.none) :
    Run threads (acts.map (.act listener)) (threads.put listener last) := by
  induction runs with
  | none =>
      rw [put_same]
      exact .none
  | more _ step quiet ih =>
      rw [List.map_append, List.map_singleton, ← put_put]
      refine .more ih (.of_isQuiet ?_ quiet held)
      rwa [put_self]

/-- An acceptor that is leaving gets to its end. -/
theorem exists_gone_of_leaving (runs : acceptor.Runs acts last) (leaving : last.phase = .leaving) :
    ∃ acts ended, acceptor.Runs acts ended ∧ ended.phase = .gone :=
  ⟨_, _, runs.more (.close leaving) rfl, rfl⟩

/-- A cancelled acceptor that is about to look leaves, unless it holds the lock. -/
theorem exists_gone_of_looks (runs : acceptor.Runs acts last) (cancelled : last.cancelled = true)
    {on : Phase} (looks : last.phase.look? = some (on, .leaving)) :
    ∃ acts ended, acceptor.Runs acts ended ∧ ended.phase = .gone :=
  (runs.more (.look looks) rfl).exists_gone_of_leaving (by simp [cancelled])

end Acceptor.Runs

/-- A cancelled acceptor gets to its end without the lock, once it is awake. -/
theorem Acceptor.exists_gone (acceptor : Acceptor) (cancelled : acceptor.cancelled = true)
    (started : acceptor.phase ≠ .starting) (unlocked : acceptor.phase.holdsLock = false)
    (awake : acceptor.phase = .accepting → acceptor.backlog ≠ []) :
    ∃ acts ended, acceptor.Runs acts ended ∧ ended.phase = .gone := by
  have runs : acceptor.Runs [] acceptor := .none
  cases phase : acceptor.phase with
  | starting => exact absurd phase started
  | accepting =>
      obtain ⟨caller, rest, backlog⟩ := List.exists_cons_of_ne_nil (awake phase)
      have accepted := runs.more (.accept phase backlog) rfl
      exact accepted.exists_gone_of_looks cancelled rfl
  | accepted caller | spinning caller =>
      exact runs.exists_gone_of_looks cancelled (congrArg Phase.look? phase)
  | trying caller =>
      have missed := runs.more (.miss phase) rfl
      exact missed.exists_gone_of_looks cancelled rfl
  | holding | publishing | releasing =>
      rw [phase] at unlocked
      cases unlocked
  | leaving => exact runs.exists_gone_of_leaving phase
  | gone => exact ⟨[], acceptor, runs, phase⟩

theorem Run.trans {first middle last : Threads} {actions later : List Action}
    (before : Run first actions middle) (after : Run middle later last) :
    Run first (actions ++ later) last := by
  induction after with
  | none =>
      rw [List.append_nil]
      exact before
  | more _ step ih =>
      rw [← List.append_assoc]
      exact .more ih step

/-- An acceptor can get to its end by what it does alone, without the lock. -/
def Leaves (threads : Threads) (listener : ListenerId) : Prop :=
  ∃ (acts : List Act) (ended : Threads), Run threads (acts.map (.act listener)) ended ∧
    (∀ act ∈ acts, act.isQuiet = true) ∧ (ended.acceptors listener).phase = .gone ∧
    ended.program = threads.program

namespace Custody

variable {threads : Threads} {part : Section} {listener : ListenerId}

/-- An acceptor that the program waits for leaves. -/
theorem leaves (custody : Custody threads) (joins : threads.program = .joining part listener) :
    threads.Leaves listener := by
  have fits := custody.fits listener
  have held : threads.holder = some .program :=
    custody.holder_eq (congrArg Program.part? joins)
  have cancelled := fits.stopped (congrArg Program.stops? joins)
  have started : (threads.acceptors listener).phase ≠ .starting := by
    intro starting
    have awaited := fits.awaited_iff.mpr starting
    simp [view, joins] at awaited
  have unlocked : (threads.acceptors listener).phase.holdsLock = false := by
    refine Bool.eq_false_iff.mpr fun locks => ?_
    have holds := fits.holds_iff.mpr locks
    simp [view, held] at holds
  have awake := fits.joined (congrArg Program.joins? joins)
  obtain ⟨acts, ended, runs, gone⟩ :=
    (threads.acceptors listener).exists_gone cancelled started unlocked awake
  have somebody : threads.holder ≠ none := by
    rw [held]
    exact Option.some_ne_none _
  refine ⟨acts, _, runs.run somebody, runs.isQuiet, ?_, rfl⟩
  rw [put_self]
  exact gone

/-- Once the new acceptor is ready, the section is at its end. -/
theorem exists_plays (custody : Custody threads)
    (starts : threads.program = .starting part listener) :
    ∃ last, Plays threads.net part.move part.calls last ∧ last.listener = some listener := by
  obtain ⟨locked, calls, last, plays, rest, whole⟩ :=
    custody.legal part (congrArg Program.part? starts)
  obtain ⟨earlier, place, listens⟩ := custody.listening part listener starts
  have ends : rest = [] := by
    refine plays.listensLast locked earlier place (some listener) rest ?_
    rw [← whole, listens, List.append_assoc, List.singleton_append]
  rw [ends, List.append_nil] at whole
  rw [← whole] at plays
  refine ⟨last, plays, ?_⟩
  rw [plays.listener_eq, listens, tracking_snoc]
  rfl

/-- Taking down the listener is the first thing that a reset does. -/
theorem legal_unlisten {net : Network} (waits : net.listener = some listener) :
    (Section.after { move := .reset } (.unlisten listener)).Legal net := by
  refine ⟨_, _, ⟨Unit, deaf, (), _, rfl⟩, ?_⟩
  have calls := reset_traced deaf net () []
  rw [waits] at calls
  exact ⟨_, calls.symm⟩

/--
An acceptor whose signal the program waits for can give it, and when it is
cancelled afterwards, it comes to its end without the lock.
-/
theorem exists_end (custody : Custody threads)
    (starts : threads.program = .starting part listener) :
    ∃ (path : List Action) (ended : Threads), Run threads (.ready listener :: path) ended ∧
      (∀ act, .act listener act ∈ path → act.isQuiet = true) ∧
      (ended.acceptors listener).phase = .gone := by
  have signals : (threads.acceptors listener).phase = .starting :=
    (custody.fits listener).awaited_iff.mp (congrArg Program.starts? starts)
  obtain ⟨last, plays, waits⟩ := custody.exists_plays starts
  -- The section ends, and the next one is a reset, which cancels and wakes the acceptor.
  have ready : Run threads [.ready listener] _ := .more .none (.ready starts signals)
  have left := ready.more (.leave rfl plays)
  have entered := left.more (@Step.enter _ .reset rfl rfl rfl)
  have cancelled := entered.more (.cancel rfl (legal_unlisten waits))
  have woken := cancelled.more (@Step.wake _ _ _ _ rfl listener (by simp) rfl 0)
  obtain ⟨acts, ended, runs, quiet, gone, _⟩ := (woken.custody custody).leaves rfl
  refine ⟨_, ended, woken.trans runs, ?_, gone⟩
  intro act member
  have acted : act ∈ acts := by simpa using member
  exact quiet act acted

end Custody

theorem Run.spawned {first last : Threads} {actions : List Action} {listener : ListenerId}
    (run : Run first actions last) (bound : .bind listener ∈ actions) :
    listener < last.spawned := by
  induction run with
  | none => cases bound
  | more before step ih =>
      rcases List.mem_append.mp bound with earlier | now
      · exact Nat.lt_of_lt_of_le (ih earlier) (Custody.spawned_le step)
      · cases List.mem_singleton.mp now
        cases step with
        | bind => exact Nat.lt_succ_self _

/-- The last action of a run. -/
theorem Run.exists_of_snoc {first last : Threads} {actions : List Action} {action : Action}
    (run : Run first (actions ++ [action]) last) :
    ∃ threads, Run first actions threads ∧ Step threads action last := by
  generalize whole : actions ++ [action] = row at run
  cases run with
  | none => cases List.append_ne_nil_of_right_ne_nil actions (List.cons_ne_nil action []) whole
  | more earlier step =>
      obtain ⟨rfl, same⟩ := List.append_inj' whole rfl
      cases same
      exact ⟨_, earlier, step⟩

/-- A run around one of its actions. -/
theorem Run.exists_around {first last : Threads} {before after : List Action} {action : Action}
    (run : Run first (before ++ action :: after) last) :
    ∃ threads next, Run first before threads ∧ Step threads action next ∧ Run next after last := by
  induction after using List.reverseRecOn generalizing last with
  | nil =>
      obtain ⟨threads, earlier, step⟩ := run.exists_of_snoc
      exact ⟨threads, last, earlier, step, .none⟩
  | append_singleton after final ih =>
      rw [← List.cons_append, ← List.append_assoc] at run
      obtain ⟨middle, earlier, final_step⟩ := run.exists_of_snoc
      obtain ⟨threads, next, first, step, rest⟩ := ih earlier
      exact ⟨threads, next, first, step, .more rest final_step⟩

namespace Custody

variable {threads next : Threads} {listener : ListenerId}

theorem own (custody : Custody threads) {act : Act} (step : Step threads (.act listener act) next)
    (changed : next.net ≠ threads.net) :
    act = .publish ∧ threads.net.listener = some listener ∧ threads.net.link = .listening := by
  cases step with
  | act acts free =>
      rcases hands_cases acts with nothing | ⟨rfl, caller, publishes⟩
      · rw [nothing] at changed
        exact absurd rfl changed
      · obtain ⟨outside, waits⟩ := custody.publishes publishes
        rw [tracked, outside] at waits
        have waits : threads.net.listener = some listener := waits
        have some_listener : threads.net.listener.isSome := by rw [waits]; rfl
        have no_connection := custody.agrees.connection_eq waits
        exact ⟨rfl, waits, custody.agrees.listening_iff.mpr ⟨some_listener, no_connection⟩⟩

/-- By publishing, an acceptor retires. -/
theorem retired_of_publish (custody : Custody threads)
    (step : Step threads (.act listener .publish) next) : next.Retired listener := by
  have spawned : listener < threads.spawned := by
    by_contra unspawned
    have gone := (custody.fits listener).unspawned unspawned
    cases step with
    | act acts free => exact acts.ne_gone gone
  refine ⟨Nat.lt_of_lt_of_le spawned (spawned_le step), ?_⟩
  cases step with
  | act acts free =>
      cases acts with
      | publish publishes =>
          rw [custody.tracked_of_publish publishes]
          exact nofun

theorem peers (custody : Custody threads) {caller : Caller}
    (publishes : (threads.acceptors listener).phase = .publishing (some caller)) :
    caller.wakes = false := by
  have fits := custody.fits listener
  have uncancelled := fits.publishing _ publishes
  have member : caller ∈ (threads.acceptors listener).callers := by
    rw [Acceptor.callers, publishes]
    exact List.mem_append_left _ List.mem_cons_self
  refine Bool.eq_false_iff.mpr fun wakes => ?_
  cases uncancelled.symm.trans (fits.wakes caller member wakes)

end Custody

/-- What is true of the acceptors behind any run. -/
structure Orderly (actions : List Action) (last : Threads) : Prop where
  /-- An acceptor changes the shared state only while a listening network tracks it. -/
  own : ∀ {listener act next}, Step last (.act listener act) next → next.net ≠ last.net →
    act = .publish ∧ last.net.listener = some listener ∧ last.net.link = .listening
  /-- Once it was taken down or replaced, an acceptor does not publish. -/
  silent : ∀ {before action after}, actions = before ++ action :: after → action.Retires →
    ∀ listener, .bind listener ∈ before → .act listener .publish ∉ after
  /-- Every acceptor publishes at most once. -/
  once : ∀ {before after listener}, actions = before ++ .act listener .publish :: after →
    .act listener .publish ∉ after
  /-- Only a peer is published, and not the connection that wakes an acceptor. -/
  peers : ∀ {listener caller}, (last.acceptors listener).phase = .publishing (some caller) →
    caller.wakes = false
  /-- A signal that the program waits for can be given, and its acceptor can get to its end. -/
  ready : ∀ {part listener}, last.program = .starting part listener →
    last.holder = some .program ∧
      ∃ (path : List Action) (ended : Threads), Run last (.ready listener :: path) ended ∧
        (∀ act, .act listener act ∈ path → act.isQuiet = true) ∧
        (ended.acceptors listener).phase = .gone
  /-- An acceptor whose end the program waits for can get there alone, and then the wait is over. -/
  join : ∀ {part listener}, last.program = .joining part listener →
    last.holder = some .program ∧
      ∃ (acts : List Act) (ended next : Threads), Run last (acts.map (.act listener)) ended ∧
        (∀ act ∈ acts, act.isQuiet = true) ∧ Step ended (.join listener) next

/--
In whatever order the program, the acceptors and their peers go on: only the
current acceptor publishes a peer, each of them does so at most once, and
waiting for an acceptor never comes to a deadlock.
-/
theorem run_orderly (addresses : Addresses) {actions : List Action} {last : Threads}
    (run : Run (start addresses) actions last) : Orderly actions last := by
  have custody := run.custody (start_custody addresses)
  refine ⟨custody.own, ?_, ?_, custody.peers, ?_, ?_⟩
  · rintro before action after rfl retires listener bound
    obtain ⟨threads, next, first, step, rest⟩ := run.exists_around
    have custody := first.custody (start_custody addresses)
    -- Whatever is tracked behind the action was spawned by it or later, so this one is retired.
    have spawned := first.spawned bound
    have retired : next.Retired listener := by
      refine ⟨Nat.lt_of_lt_of_le spawned (Custody.spawned_le step), fun still => ?_⟩
      have new := Custody.tracked_of_retires step retires listener still
      exact Nat.lt_irrefl _ (Nat.lt_of_lt_of_le spawned new)
    exact (rest.silent (custody.step step) retired).1
  · rintro before after listener rfl
    obtain ⟨threads, next, first, step, rest⟩ := run.exists_around
    have custody := first.custody (start_custody addresses)
    exact (rest.silent (custody.step step) (custody.retired_of_publish step)).1
  · intro part listener starts
    exact ⟨custody.holder_eq (congrArg Program.part? starts), custody.exists_end starts⟩
  · intro part listener joins
    obtain ⟨acts, ended, runs, quiet, gone, same⟩ := custody.leaves joins
    exact ⟨custody.holder_eq (congrArg Program.part? joins), acts, ended, _, runs, quiet,
      .join (same.trans joins) gone⟩

/-- A network with a single acceptor. -/
def single (net : Network) (holder : Option Holder) (program : Program) (acceptor : Acceptor) :
    Threads :=
  { net, holder, program, acceptors := Function.update (fun _ => {}) 0 acceptor, spawned := 1 }

section

variable {net : Network} {holder : Option Holder} {program : Program} {acceptor next : Acceptor}

theorem single_put :
    (single net holder program acceptor).put 0 next = single net holder program next := by
  rw [single, put, Function.update_idem, single]

theorem single_act {act : Act} (acts : acceptor.Acts act next) (free : act.Free holder) :
    Step (single net holder program acceptor) (.act 0 act)
      (single (net.adopt (acceptor.hands act)) (act.locks 0 holder) program next) := by
  have step : Step (single net holder program acceptor) (.act 0 act) _ := .act acts free
  rwa [single_put] at step

theorem single_visit (bound : acceptor.phase.isBound = true) (connection : ConnectionId) :
    Step (single net holder program acceptor) (.visit 0 connection)
      (single net holder program (acceptor.calledBy { connection })) := by
  have step : Step (single net holder program acceptor) (.visit 0 connection) _ :=
    .visit bound connection
  rwa [single_put] at step

theorem single_ready {part : Section} (signals : acceptor.phase = .starting) :
    Step (single net holder (.starting part 0) acceptor) (.ready 0)
      (single net holder (.within part) { acceptor with phase := .accepting }) := by
  have step : Step (single net holder (.starting part 0) acceptor) (.ready 0) _ :=
    .ready rfl signals
  rwa [single_put] at step

end

/-- A peer comes to a listener, is accepted and published, and the lock is free again. -/
def serving : List Action :=
  [.enter .approach, .bind 0, .ready 0, .leave .approach, .visit 0 7, .act 0 .accept,
    .act 0 .look, .act 0 .look, .act 0 .seize, .act 0 .look, .act 0 .publish, .act 0 .release]

/-- The network listens. -/
def waiting : Network :=
  { fresh {} with listener := some 0, link := .listening }

/-- The socket of the acceptor is still bound. -/
def served : Threads :=
  single (waiting.adopt (.peer 7)) none .outside { port := basePort, phase := .leaving }

theorem serving_run : Run (start {}) serving served := by
  let place : Endpoint := ⟨({} : Addresses).listen, basePort⟩
  let inside : Threads :=
    { start {} with holder := some .program, program := .within { move := .approach } }
  have plays : Plays (fresh {}) .approach [.listen place (some 0)] waiting :=
    ⟨List UInt8, obliging, [], _, rfl⟩
  have legal : (Section.after { move := .approach } (.listen place (some 0))).Legal inside.net :=
    ⟨_, _, plays, List.prefix_rfl⟩
  have entered : Run (start {}) (serving.take 1) inside := .more .none (.enter rfl rfl rfl)
  have bound : Run (start {}) (serving.take 2) (single (fresh {}) (some .program)
      (.starting ⟨.approach, [.listen place (some 0)]⟩ 0)
      { port := basePort, phase := .starting }) :=
    entered.more (@Step.bind inside _ rfl place legal fun _ bound => nomatch bound)
  have ready : Run (start {}) (serving.take 3) (single (fresh {}) (some .program)
      (.within ⟨.approach, [.listen place (some 0)]⟩)
      { port := basePort, phase := .accepting }) :=
    bound.more (single_ready rfl)
  have listening : Run (start {}) (serving.take 4)
      (single waiting none .outside { port := basePort, phase := .accepting }) :=
    ready.more (@Step.leave _ ⟨.approach, [.listen place (some 0)]⟩ rfl waiting plays)
  have accepted : Run (start {}) (serving.take 6) (single waiting none .outside
      { port := basePort, phase := .accepted (some { connection := 7 }) }) :=
    (listening.more (single_visit rfl 7)).more (single_act (.accept rfl rfl) trivial)
  have tries : Run (start {}) (serving.take 8) (single waiting none .outside
      { port := basePort, phase := .trying (some { connection := 7 }) }) :=
    (accepted.more (single_act (.look rfl) trivial)).more (single_act (.look rfl) trivial)
  have publishes : Run (start {}) (serving.take 10) (single waiting (some (.acceptor 0)) .outside
      { port := basePort, phase := .publishing (some { connection := 7 }) }) :=
    (tries.more (single_act (.seize rfl) rfl)).more (single_act (.look rfl) trivial)
  exact (publishes.more (single_act (.publish rfl) trivial)).more
    (single_act (.release rfl) trivial)

theorem run_orderly_serving : Run (start {}) serving served ∧ Orderly serving served :=
  ⟨serving_run, run_orderly {} serving_run⟩

end Threads

end TapeNet