import TapeNet.Proofs.Threads.Publication

/-!
# When a port is free again

Closing a listener that nobody has come to frees its port before the program
goes on, since it waits until the acceptor has ended.  An acceptor that has
published a peer is not tracked any more and not waited for: its socket stays
bound until it has closed it, and that may be after a choice of another port
or a reset.
-/

namespace TapeNet

open Network

namespace Threads

/-- Every connection that is to wake an acceptor reaches its socket, if that is bound. -/
def Awakes (actions : List Action) : Prop :=
  ∀ listener, .unwoken listener true ∉ actions

namespace Acceptor

variable {acceptor next : Acceptor} {act : Act}

theorem Acts.isBound (acts : acceptor.Acts act next) : acceptor.phase.isBound = true :=
  Phase.isBound_of_ne acts.ne_gone

/-- An acceptor that is not cancelled is done when it publishes, or was done before. -/
theorem Acts.done_cases (acts : acceptor.Acts act next) (uncancelled : acceptor.cancelled = false)
    (bound : next.phase.isBound = true) (done : next.phase.isOpen = false) :
    act = .publish ∨ acceptor.phase.isOpen = false := by
  cases acts with
  | publish => exact .inl rfl
  | release phase => exact .inr (by rw [phase]; rfl)
  | close => cases bound
  | accept | fail | miss | seize => cases done
  | look looks =>
      cases phase : acceptor.phase with
      | accepted caller | spinning caller | holding caller =>
          rw [phase] at looks
          cases looks
          simp [uncancelled] at done
      | starting | accepting | trying | publishing | releasing | leaving | gone =>
          rw [phase] at looks
          cases looks

end Acceptor

/-- A cancelled acceptor with a bound socket is the one that the program takes down. -/
def Stopped (stops : Option ListenerId) (listener : ListenerId) (acceptor : Acceptor) : Prop :=
  acceptor.cancelled = true → acceptor.phase.isBound = true → stops = some listener

/-- An acceptor with a bound socket that is done, and was not cancelled, has published. -/
def Published (actions : List Action) (listener : ListenerId) (acceptor : Acceptor) : Prop :=
  acceptor.cancelled = false → acceptor.phase.isBound = true → acceptor.phase.isOpen = false →
    .act listener .publish ∈ actions

/-- What sockets can be bound behind some actions. -/
structure Leftover (actions : List Action) (threads : Threads) : Prop where
  stopped : ∀ listener, Stopped threads.program.stops? listener (threads.acceptors listener)
  published : ∀ listener, Published actions listener (threads.acceptors listener)

theorem start_leftover (addresses : Addresses) : Leftover [] (start addresses) :=
  ⟨nofun, nofun⟩

namespace Leftover

variable {actions : List Action} {threads next : Threads} {action : Action}

theorem stopped_step (leftover : Leftover actions threads) (step : Step threads action next)
    (awake : ∀ listener, action ≠ .unwoken listener true) :
    ∀ listener, Stopped next.program.stops? listener (next.acceptors listener) := by
  have stopped := leftover.stopped
  cases step with
  | enter _ state | call state | leave state | stray state | retry state =>
      rw [state] at stopped
      exact stopped
  | @visit visited _ _ =>
      exact forall_put (Stopped threads.program.stops?) (stopped visited)
        fun other _ => stopped other
  | @wake _ _ _ wakes reached =>
      rw [wakes] at stopped
      exact forall_put (Stopped _) (stopped reached) fun other _ => stopped other
  | @giveUp part woken attempts wakes =>
      intro listener cancelled bound
      have stops := stopped listener cancelled bound
      rw [wakes] at stops
      cases stops
      -- The attempt has failed with the socket bound, which was excluded.
      have reached : (threads.acceptors woken).phase.isBound = true := bound
      rw [reached] at awake
      cases awake woken rfl
  | join joins ended =>
      intro listener cancelled bound
      have stops := stopped listener cancelled bound
      rw [joins] at stops
      cases stops
      have bound : (threads.acceptors _).phase.isBound = true := bound
      rw [ended] at bound
      cases bound
  | bind within =>
      rw [within] at stopped
      exact forall_put (Stopped _) nofun fun other _ => stopped other
  | ready starts signals =>
      rw [starts] at stopped
      refine forall_put (Stopped _) (fun cancelled _ => ?_) fun other _ => stopped other
      exact stopped _ cancelled (by rw [signals]; rfl)
  | cancel within =>
      rw [within] at stopped
      refine forall_put (Stopped _) (fun _ _ => rfl) fun other _ cancelled bound => ?_
      cases stopped other cancelled bound
  | act acts =>
      refine forall_put (Stopped threads.program.stops?) ?_ fun other _ => stopped other
      intro cancelled _
      rw [acts.cancelled_eq] at cancelled
      exact stopped _ cancelled acts.isBound

theorem published_step (leftover : Leftover actions threads) (step : Step threads action next) :
    ∀ listener, Published (actions ++ [action]) listener (next.acceptors listener) := by
  have published : ∀ listener,
      Published (actions ++ [action]) listener (threads.acceptors listener) :=
    fun listener uncancelled bound done =>
      List.mem_append_left _ (leftover.published listener uncancelled bound done)
  cases step with
  | enter | call | stray | retry | giveUp | join | leave => exact published
  | visit | wake => exact forall_put (Published _) (published _) fun other _ => published other
  | bind | ready | cancel => exact forall_put (Published _) nofun fun other _ => published other
  | act acts =>
      refine forall_put (Published _) ?_ fun other _ => published other
      intro uncancelled bound done
      rw [acts.cancelled_eq] at uncancelled
      rcases acts.done_cases uncancelled bound done with rfl | before
      · exact List.mem_append_right _ List.mem_cons_self
      · exact published _ uncancelled acts.isBound before

end Leftover

theorem Run.leftover {first last : Threads} {actions : List Action}
    (run : Run first actions last) (awake : Awakes actions) (nothing : Leftover [] first) :
    Leftover actions last := by
  induction run with
  | none => exact nothing
  | more _ step ih =>
      have before := ih fun listener member => awake listener (List.mem_append_left _ member)
      refine ⟨before.stopped_step step ?_, before.published_step step⟩
      rintro listener rfl
      exact awake listener (List.mem_append_right _ List.mem_cons_self)

/-- What is true of the sockets behind the end of a choice of a port or a reset. -/
structure Released (actions : List Action) (last : Threads) : Prop where
  /-- A socket that is still bound is that of an acceptor that has published a peer. -/
  handed : ∀ listener, (last.acceptors listener).phase.isBound = true →
    (last.acceptors listener).phase = .leaving ∧ .act listener .publish ∈ actions
  /-- Such an acceptor can close its socket whatever the others do. -/
  closes : ∀ listener, (last.acceptors listener).phase.isBound = true →
    ∃ next, Step last (.act listener .close) next ∧ (next.acceptors listener).phase = .gone
  /-- When all acceptors that have published are at their ends, every port is free. -/
  vacant : (∀ listener, .act listener .publish ∈ actions →
    (last.acceptors listener).phase = .gone) → ∀ port, last.Vacant port

theorem holder_of_leave {threads last : Threads} {move : Move}
    (step : Step threads (.leave move) last) : last.holder = none := by
  cases step with
  | leave => rfl

/-- Nothing is tracked behind a choice of a port or a reset. -/
theorem Custody.tracked_of_leave {threads last : Threads} {move : Move} (custody : Custody last)
    (step : Step threads (.leave move) last) (retires : Action.Retires (.leave move)) :
    last.tracked = none := by
  cases tracked : last.tracked with
  | none => rfl
  | some listener =>
      have new := Custody.tracked_of_retires step retires listener tracked
      have latest := custody.latest listener (.inl tracked)
      cases step with
      | leave =>
          rw [← latest] at new
          cases Nat.not_succ_le_self listener new

/-- An acceptor that is done, while nobody holds the lock, has only its socket to close. -/
theorem Custody.leaving_of_done {threads : Threads} (custody : Custody threads)
    {listener : ListenerId} (free : threads.holder = none)
    (bound : (threads.acceptors listener).phase.isBound = true)
    (done : (threads.acceptors listener).phase.isOpen = false) :
    (threads.acceptors listener).phase = .leaving := by
  have holds := (custody.fits listener).holds_iff
  cases phase : (threads.acceptors listener).phase with
  | leaving => rfl
  | releasing =>
      rw [phase] at holds
      cases free.symm.trans (holds.mpr rfl)
  | gone =>
      rw [phase] at bound
      cases bound
  | starting | accepting | accepted | spinning | trying | holding | publishing =>
      rw [phase] at done
      cases done

/--
If whatever is to wake an acceptor reaches it, then a socket that is still
bound when a choice of a port or a reset is over is one through which a peer
has come, and all that is left to do for its acceptor is to close it.
-/
theorem run_released (addresses : Addresses) {actions : List Action} {threads last : Threads}
    {move : Move} (run : Run (start addresses) actions threads) (awake : Awakes actions)
    (step : Step threads (.leave move) last) (retires : Action.Retires (.leave move)) :
    Released actions last := by
  have custody := (run.custody (start_custody addresses)).step step
  have leftover := run.leftover awake (start_leftover addresses)
  have untracked := custody.tracked_of_leave step retires
  have handed : ∀ listener, (last.acceptors listener).phase.isBound = true →
      (last.acceptors listener).phase = .leaving ∧ .act listener .publish ∈ actions := by
    intro listener bound
    -- A cancelled one has been waited for, and one that is still open would be tracked.
    have uncancelled : (last.acceptors listener).cancelled = false := by
      refine Bool.eq_false_iff.mpr fun cancelled => ?_
      have stops := leftover.stopped_step step nofun listener cancelled bound
      cases step with
      | leave => cases stops
    have done : (last.acceptors listener).phase.isOpen = false := by
      refine Bool.eq_false_iff.mpr fun is_open => ?_
      have still := (custody.fits listener).tracked_iff.mpr ⟨uncancelled, is_open⟩
      cases untracked.symm.trans still
    have published := leftover.published_step step listener uncancelled bound done
    refine ⟨custody.leaving_of_done (holder_of_leave step) bound done, ?_⟩
    rcases List.mem_append.mp published with before | now
    · exact before
    · cases List.mem_singleton.mp now
  refine ⟨handed, ?_, ?_⟩
  · intro listener bound
    refine ⟨_, .act (.close (handed listener bound).1) trivial, ?_⟩
    simp
  · intro ended port listener bound
    rw [ended listener (handed listener bound).2] at bound
    cases bound

/-- Behind `serving`, a port is chosen, and the connection of the peer is closed. -/
def choosing : List Action :=
  serving ++ [.enter (.setPort 0), .call (.hangUp 7)]

/-- The choice of the port is about to return, and the socket is still bound. -/
def chosen : Threads :=
  single (waiting.adopt (.peer 7)) (some .program) (.within ⟨.setPort 0, [.hangUp 7]⟩)
    { port := basePort, phase := .leaving }

theorem choosing_plays :
    Plays (waiting.adopt (.peer 7)) (.setPort 0) [.hangUp 7] (fresh {}) :=
  ⟨Unit, deaf, (), _, rfl⟩

theorem choosing_run : Run (start {}) choosing chosen := by
  have entered : Run (start {}) (serving ++ [.enter (.setPort 0)]) (single
      (waiting.adopt (.peer 7)) (some .program) (.within { move := .setPort 0 })
      { port := basePort, phase := .leaving }) :=
    serving_run.more (.enter rfl rfl rfl)
  exact entered.more (@Step.call _ { move := .setPort 0 } rfl (.hangUp 7) rfl
    ⟨_, _, choosing_plays, List.prefix_rfl⟩)

theorem choosing_awakes : Awakes choosing := by
  simp [Awakes, choosing, serving]

theorem chosen_step : Step chosen (.leave (.setPort 0)) { served with net := fresh {} } :=
  @Step.leave chosen ⟨.setPort 0, [.hangUp 7]⟩ rfl _ choosing_plays

theorem run_released_chosen :
    (Run (start {}) choosing chosen ∧ Awakes choosing ∧
        Step chosen (.leave (.setPort 0)) { served with net := fresh {} } ∧
        Action.Retires (.leave (.setPort 0))) ∧
      Released choosing { served with net := fresh {} } :=
  ⟨⟨choosing_run, choosing_awakes, chosen_step, .setPort 0⟩,
    run_released {} choosing_run choosing_awakes chosen_step (.setPort 0)⟩

/--
A choice of a port can return while a socket of the network is still bound to
the very port: its acceptor has published a peer and released the lock, and has
not closed the socket yet.
-/
theorem setPort_leaves_bound :
    ∃ (actions : List Action) (threads last : Threads), Run (start {}) actions threads ∧
      Awakes actions ∧ Step threads (.leave (.setPort 0)) last ∧ ¬ last.Vacant last.net.port :=
  ⟨choosing, chosen, _, choosing_run, choosing_awakes, chosen_step,
    fun vacant => vacant 0 rfl rfl⟩

end Threads

end TapeNet
