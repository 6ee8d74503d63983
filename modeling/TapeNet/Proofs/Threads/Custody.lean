import TapeNet.Proofs.Threads.System

/-!
# Who holds the lock and which acceptor is tracked

What is true at every moment of any run.  It is said for one acceptor at a
time, by how the shared state looks from where it stands: an acceptor that is
neither cancelled nor done is the one that the program tracks, one that holds
the lock is past its second look, and whoever is about to publish is not
cancelled.
-/

namespace TapeNet

open Network

namespace Threads

/-- How what is shared looks from where one acceptor stands. -/
structure View where
  /-- It holds the lock. -/
  holds : Prop
  /-- The program tracks it. -/
  tracked : Prop
  /-- The program waits until it is ready. -/
  awaited : Prop
  /-- The program takes it down. -/
  stopped : Prop
  /-- The program waits until its thread has ended. -/
  joined : Prop
  spawned : Prop

def view (threads : Threads) (listener : ListenerId) : View where
  holds := threads.holder = some (.acceptor listener)
  tracked := threads.tracked = some listener
  awaited := threads.program.starts? = some listener
  stopped := threads.program.stops? = some listener
  joined := threads.program.joins? = some listener
  spawned := listener < threads.spawned

/-- The view behind an act. -/
@[simp]
def View.behind (view : View) : Act → View
  | .seize => { view with holds := True }
  | .release => { view with holds := False }
  | .publish => { view with tracked := False }
  | .accept | .fail | .look | .miss | .close => view

/-- An acceptor is what it looks like to the others. -/
structure Acceptor.Fits (acceptor : Acceptor) (view : View) : Prop where
  holds_iff : view.holds ↔ acceptor.phase.holdsLock = true
  tracked_iff : view.tracked ↔ acceptor.cancelled = false ∧ acceptor.phase.isOpen = true
  awaited_iff : view.awaited ↔ acceptor.phase = .starting
  stopped : view.stopped → acceptor.cancelled = true
  /-- Who waits for its thread to end has woken it. -/
  joined : view.joined → acceptor.phase = .accepting → acceptor.backlog ≠ []
  publishing : ∀ caller, acceptor.phase = .publishing caller → acceptor.cancelled = false
  /-- Only a cancelled acceptor is woken. -/
  wakes : ∀ caller ∈ acceptor.callers, caller.wakes = true → acceptor.cancelled = true
  unspawned : ¬ view.spawned → acceptor.phase = .gone

namespace Acceptor

variable {acceptor next : Acceptor} {act : Act}

theorem Acts.cancelled_eq (acts : acceptor.Acts act next) :
    next.cancelled = acceptor.cancelled := by
  cases acts with
  | accept | fail | look | miss | seize | publish | release | close => rfl

theorem Acts.port_eq (acts : acceptor.Acts act next) : next.port = acceptor.port := by
  cases acts with
  | accept | fail | look | miss | seize | publish | release | close => rfl

/-- An acceptor whose thread has ended does nothing. -/
theorem Acts.ne_gone (acts : acceptor.Acts act next) : acceptor.phase ≠ .gone := by
  intro gone
  cases acts with
  | accept phase | fail phase | miss phase | seize phase | publish phase | release phase
  | close phase => cases gone.symm.trans phase
  | look looks =>
      rw [gone] at looks
      cases looks

/-- Nobody comes to a socket by what its acceptor does. -/
theorem Acts.callers_subset (acts : acceptor.Acts act next) :
    next.callers ⊆ acceptor.callers := by
  intro caller member
  unfold callers at member ⊢
  cases acts with
  | accept waits first => simpa [waits, first] using member
  | look looks =>
      cases phase : acceptor.phase with
      | accepted caller | spinning caller | holding caller =>
          rw [phase] at looks
          cases looks
          cases cancelled : acceptor.cancelled with
          | true | false => simp_all
      | starting | accepting | trying | publishing | releasing | leaving | gone =>
          rw [phase] at looks
          cases looks
  | fail phase | miss phase | seize phase | publish phase | release phase | close phase =>
      simp_all

namespace Fits

variable {view : View}

theorem acts (fits : acceptor.Fits view) (acts : acceptor.Acts act next) :
    next.Fits (view.behind act) := by
  have wakes : ∀ caller ∈ next.callers, caller.wakes = true → next.cancelled = true := by
    intro caller member waking
    rw [acts.cancelled_eq]
    exact fits.wakes caller (acts.callers_subset member) waking
  obtain ⟨holds, tracked, awaited, stopped, joined, publishing, _, unspawned⟩ := fits
  cases acts with
  | look looks =>
      cases phase : acceptor.phase with
      | accepted caller | spinning caller | holding caller =>
          rw [phase] at looks
          cases looks
          refine ⟨?_, ?_, ?_, stopped, ?_, ?_, wakes, ?_⟩
          all_goals
            cases cancelled : acceptor.cancelled with
            | true | false => simp_all
      | starting | accepting | trying | publishing | releasing | leaving | gone =>
          rw [phase] at looks
          cases looks
  | accept phase | fail phase | miss phase | seize phase | publish phase | release phase
  | close phase =>
      refine ⟨?_, ?_, ?_, stopped, ?_, ?_, wakes, ?_⟩
      all_goals simp_all

/-- Somebody comes to the socket; only a cancelled acceptor is woken. -/
theorem called (fits : acceptor.Fits view) (bound : acceptor.phase.isBound = true)
    (caller : Caller) (allowed : caller.wakes = true → acceptor.cancelled = true)
    (joined : Prop) : (acceptor.calledBy caller).Fits { view with joined } := by
  refine ⟨fits.holds_iff, fits.tracked_iff, fits.awaited_iff, fits.stopped, ?_, fits.publishing,
    ?_, ?_⟩
  · exact fun _ _ => List.append_ne_nil_of_right_ne_nil _ (List.cons_ne_nil caller [])
  · intro other member waking
    have either : other ∈ acceptor.callers ∨ other = caller := by
      simpa [Acceptor.callers, or_assoc] using member
    rcases either with before | rfl
    · exact fits.wakes other before waking
    · exact allowed waking
  · intro unspawned
    have gone := fits.unspawned unspawned
    rw [gone] at bound
    cases bound

theorem spawn (port : Nat) : Acceptor.Fits { port, phase := .starting }
    { holds := False, tracked := True, awaited := True, stopped := False, joined := False,
      spawned := True } := by
  constructor <;> simp [Acceptor.callers]

theorem ready (fits : acceptor.Fits view) (signals : acceptor.phase = .starting)
    (apart : ¬ view.joined) :
    Acceptor.Fits { acceptor with phase := .accepting } { view with awaited := False } := by
  obtain ⟨holds, tracked, awaited, stopped, joined, publishing, wakes, unspawned⟩ := fits
  unfold callers at wakes
  rw [signals] at wakes
  refine ⟨?_, ?_, ?_, stopped, ?_, ?_, wakes, ?_⟩
  all_goals simp_all

/-- Nobody is cancelled who is about to publish: he has the lock. -/
theorem cancel (fits : acceptor.Fits view) (unlocked : ¬ view.holds) :
    Acceptor.Fits { acceptor with cancelled := true }
      { view with tracked := False, stopped := True } := by
  refine ⟨fits.holds_iff, ?_, fits.awaited_iff, fun _ => rfl, fits.joined, ?_, fun _ _ _ => rfl,
    fits.unspawned⟩
  · simp
  · intro caller publishes
    refine absurd (fits.holds_iff.mpr ?_) unlocked
    rw [publishes]
    rfl

/-- Nobody waits for the acceptor any more. -/
theorem abandoned (fits : acceptor.Fits view) :
    acceptor.Fits { view with stopped := False, joined := False } :=
  { fits with stopped := False.elim, joined := False.elim }

/-- Whoever waits for a thread that has ended waits for nothing. -/
theorem ended (fits : acceptor.Fits view) (unbound : ¬ acceptor.phase.isBound = true)
    (joined : Prop) : acceptor.Fits { view with joined } := by
  refine { fits with joined := fun _ accepts => absurd ?_ unbound }
  rw [accepts]
  rfl

end Fits

end Acceptor

/-- What is true at every moment. -/
structure Custody (threads : Threads) : Prop where
  fits : ∀ listener, (threads.acceptors listener).Fits (threads.view listener)
  agrees : threads.net.Agrees
  /-- The program holds the lock exactly while it is in a section. -/
  program_holds : threads.holder = some .program ↔ threads.program.part?.isSome
  legal : ∀ part, threads.program.part? = some part →
    part.move.isLocked = true ∧ part.Legal threads.net
  /-- Only the acceptor spawned last is tracked or taken down. -/
  latest : ∀ listener,
    threads.tracked = some listener ∨ threads.program.stops? = some listener →
      listener + 1 = threads.spawned
  /-- A port is bound again only when the acceptors before have left it. -/
  superseded : ∀ earlier later, earlier < later → later < threads.spawned →
    (threads.acceptors earlier).port = (threads.acceptors later).port →
      (threads.acceptors earlier).phase = .gone
  /-- While the program waits for a signal, it is setting up the listener. -/
  listening : ∀ part listener, threads.program = .starting part listener →
    ∃ earlier place, part.calls = earlier ++ [.listen place (some listener)]

theorem start_custody (addresses : Addresses) : Custody (start addresses) where
  fits listener := by
    constructor <;> simp [start, view, tracked, Network.tracking, fresh, Acceptor.callers]
  agrees := fresh_agrees addresses
  program_holds := by simp [start]
  legal := nofun
  latest := by simp [start, tracked, Network.tracking, fresh]
  superseded earlier later _ spawned := absurd spawned (Nat.not_lt_zero later)
  listening := nofun

namespace Custody

variable {threads next : Threads} {action : Action}

/-- In a section, the lock is held by the program. -/
theorem holder_eq (custody : Custody threads) {part : Section}
    (within : threads.program.part? = some part) : threads.holder = some .program :=
  custody.program_holds.mpr (by rw [within]; rfl)

/-- Who publishes is tracked, and the program is outside of any section. -/
theorem publishes (custody : Custody threads) {listener : ListenerId} {caller : Option Caller}
    (publishes : (threads.acceptors listener).phase = .publishing caller) :
    threads.program.part? = none ∧ threads.tracked = some listener := by
  have fits := custody.fits listener
  have holds : threads.holder = some (.acceptor listener) :=
    fits.holds_iff.mpr (by rw [publishes]; rfl)
  have is_open : (threads.acceptors listener).phase.isOpen = true := by
    rw [publishes]
    rfl
  refine ⟨?_, fits.tracked_iff.mpr ⟨fits.publishing caller publishes, is_open⟩⟩
  cases part : threads.program.part? with
  | none => rfl
  | some part => cases holds.symm.trans (custody.holder_eq part)

/-- By publishing, the acceptor stops being tracked. -/
theorem listener_of_publish (net : Network) {acceptor : Acceptor} {caller : Option Caller}
    (publishes : acceptor.phase = .publishing caller) :
    (net.adopt (acceptor.hands .publish)).listener = none := by
  rw [Acceptor.hands, publishes]
  cases caller with
  | none | some caller => rfl

theorem tracked_of_publish (custody : Custody threads) {listener : ListenerId}
    {caller : Option Caller}
    (publishes : (threads.acceptors listener).phase = .publishing caller) (acceptor : Acceptor)
    (holder : Option Holder) :
    tracked { threads.put listener acceptor with
      net := threads.net.adopt ((threads.acceptors listener).hands .publish), holder } = none := by
  have outside := (custody.publishes publishes).1
  simp only [tracked, put_program, outside, Option.elim_none, Network.tracking, List.foldl_nil]
  exact listener_of_publish threads.net publishes

theorem view_act (custody : Custody threads) {listener : ListenerId} {act : Act}
    {acceptor : Acceptor} (acts : (threads.acceptors listener).Acts act acceptor) :
    view { threads.put listener acceptor with
        net := threads.net.adopt ((threads.acceptors listener).hands act)
        holder := act.locks listener threads.holder } listener =
      (threads.view listener).behind act := by
  cases acts with
  | accept | fail | look | miss | close => rfl
  | seize tries => simp [view, tracked, Network.adopt]
  | publish publishes =>
      rw [view, custody.tracked_of_publish publishes]
      simp [view]
  | release done => simp [view, tracked, Network.adopt]

/-- Nothing looks different to any other acceptor. -/
theorem view_act_of_ne (custody : Custody threads) {listener other : ListenerId} {act : Act}
    {acceptor : Acceptor} (acts : (threads.acceptors listener).Acts act acceptor)
    (free : act.Free threads.holder) (different : other ≠ listener) :
    view { threads.put listener acceptor with
        net := threads.net.adopt ((threads.acceptors listener).hands act)
        holder := act.locks listener threads.holder } other =
      threads.view other := by
  cases acts with
  | accept | fail | look | miss | close => rfl
  | seize tries =>
      have free : threads.holder = none := free
      simp [view, tracked, Network.adopt, free, Ne.symm different]
  | publish publishes =>
      rw [view, custody.tracked_of_publish publishes, view, (custody.publishes publishes).2]
      simp [Ne.symm different]
  | release done =>
      have held : threads.holder = some (.acceptor listener) :=
        (custody.fits listener).holds_iff.mpr (by rw [done]; rfl)
      simp [view, tracked, Network.adopt, held, Ne.symm different]

/-- The connection that wakes an acceptor reaches no other acceptor. -/
theorem reached_eq (custody : Custody threads) {listener reached : ListenerId}
    (stops : threads.program.stops? = some listener)
    (bound : (threads.acceptors reached).phase.isBound = true)
    (same : (threads.acceptors reached).port = (threads.acceptors listener).port) :
    reached = listener := by
  have latest := custody.latest listener (.inr stops)
  have spawned : reached < threads.spawned := by
    by_contra unspawned
    rw [(custody.fits reached).unspawned unspawned] at bound
    cases bound
  rw [← latest] at spawned
  rcases Nat.lt_or_eq_of_le (Nat.le_of_lt_succ spawned) with earlier | equal
  · have last : listener < threads.spawned := latest ▸ Nat.lt_succ_self listener
    rw [custody.superseded reached listener earlier last same] at bound
    cases bound
  · exact equal

/-- All fit when one is replaced by another that fits and nothing looks different to the rest. -/
theorem fits_put (custody : Custody threads) {listener : ListenerId} {acceptor : Acceptor}
    (replaced : next.acceptors = (threads.put listener acceptor).acceptors)
    (here : acceptor.Fits (next.view listener))
    (elsewhere : ∀ other ≠ listener, next.view other = threads.view other) :
    ∀ other, (next.acceptors other).Fits (next.view other) := by
  rw [replaced]
  refine forall_put (fun other acceptor => acceptor.Fits (next.view other)) here ?_
  intro other different
  rw [elsewhere other different]
  exact custody.fits other

theorem fits_step (custody : Custody threads) (step : Step threads action next) :
    ∀ listener, (next.acceptors listener).Fits (next.view listener) := by
  cases step with
  | enter locked outside free =>
      intro listener
      have fits := custody.fits listener
      simpa [view, tracked, outside, free] using fits
  | call within plain legal =>
      intro listener
      have fits := custody.fits listener
      have same := legal.tracks_of_isPlain plain
      simpa [view, tracked, within, same] using fits
  | @bind part within place legal vacant =>
      have untracked := legal.tracking_of_listen
      have held := custody.holder_eq (congrArg Program.part? within)
      refine custody.fits_put rfl ?_ ?_
      · simpa [view, tracked, held, Call.tracks] using Acceptor.Fits.spawn place.port
      · intro other different
        have old : other < threads.spawned + 1 ↔ other < threads.spawned :=
          ⟨fun below => Nat.lt_of_le_of_ne (Nat.le_of_lt_succ below) different, Nat.lt_succ_of_lt⟩
        simp [view, tracked, within, untracked, held, old, Call.tracks, Ne.symm different]
  | @ready part listener starts signals =>
      have apart : ¬ (threads.view listener).joined := by simp [view, starts]
      refine custody.fits_put rfl ?_ ?_
      · simpa [view, tracked, starts] using (custody.fits listener).ready signals apart
      · intro other different
        simp [view, tracked, starts, Ne.symm different]
  | @cancel part within listener legal =>
      have was_tracked := legal.tracking_of_unlisten
      have held := custody.holder_eq (congrArg Program.part? within)
      have unlocked : ¬ (threads.view listener).holds := by simp [view, held]
      refine custody.fits_put rfl ?_ ?_
      · simpa [view, tracked, within, Call.tracks] using (custody.fits listener).cancel unlocked
      · intro other different
        simp [view, tracked, within, was_tracked, Call.tracks, Ne.symm different]
  | @wake part listener attempts wakes reached bound same connection =>
      -- No acceptor before it is still at this port, so the connection reaches the cancelled one.
      have stops : threads.program.stops? = some listener := by rw [wakes]; rfl
      obtain rfl := custody.reached_eq stops bound same
      have fits := custody.fits reached
      have cancelled := fits.stopped stops
      have called := fits.called bound ⟨connection, true⟩ (fun _ => cancelled) True
      refine custody.fits_put rfl ?_ ?_
      · simpa [view, tracked, wakes] using called
      · intro other different
        simp [view, tracked, wakes, Ne.symm different]
  | @stray part woken attempts wakes vacant =>
      intro listener
      have fits := custody.fits listener
      by_cases same : listener = woken
      · subst same
        have unbound : ¬ (threads.acceptors listener).phase.isBound = true :=
          fun bound => vacant listener bound rfl
        simpa [view, tracked, wakes] using fits.ended unbound True
      · simpa [view, tracked, wakes, Ne.symm same] using fits
  | retry wakes =>
      intro listener
      have fits := custody.fits listener
      simpa [view, tracked, wakes] using fits
  | giveUp wakes =>
      intro listener
      have fits := (custody.fits listener).abandoned
      simpa [view, tracked, wakes] using fits
  | join joins ended =>
      intro listener
      have fits := (custody.fits listener).abandoned
      simpa [view, tracked, joins] using fits
  | leave within plays =>
      -- What the section has tracked call by call is what the move leaves in the network.
      intro listener
      have fits := custody.fits listener
      have held := custody.holder_eq (congrArg Program.part? within)
      have same := plays.listener_eq
      simpa [view, tracked, within, held, same, Network.tracking] using fits
  | @visit listener bound connection =>
      refine custody.fits_put rfl ?_ fun _ _ => rfl
      exact (custody.fits listener).called bound { connection } (absurd · Bool.false_ne_true) _
  | @act listener act acceptor acts free =>
      refine custody.fits_put rfl ?_ fun other => custody.view_act_of_ne acts free
      rw [custody.view_act acts]
      exact (custody.fits listener).acts acts

/-- An act that is no publication hands nothing over. -/
theorem hands_cases {acceptor after : Acceptor} {act : Act} (acts : acceptor.Acts act after) :
    acceptor.hands act = .nobody ∨
      act = .publish ∧ ∃ caller, acceptor.phase = .publishing caller := by
  cases acts with
  | accept | fail | look | miss | seize | release | close => exact .inl rfl
  | publish publishes => exact .inr ⟨rfl, _, publishes⟩

theorem agrees_step (custody : Custody threads) (step : Step threads action next) :
    next.net.Agrees := by
  cases step with
  | enter | call | bind | ready | cancel | wake | stray | retry | giveUp | join | visit =>
      exact custody.agrees
  | leave within plays => exact plays.agrees custody.agrees
  | @act listener _ _ acts free =>
      rcases hands_cases acts with nothing | ⟨rfl, caller, publishes⟩
      · rw [nothing]
        exact custody.agrees
      · obtain ⟨outside, was_tracked⟩ := custody.publishes publishes
        rw [tracked, outside] at was_tracked
        exact custody.agrees.adopt was_tracked _

theorem program_holds_step (custody : Custody threads) (step : Step threads action next) :
    next.holder = some .program ↔ next.program.part?.isSome := by
  have holds := custody.program_holds
  cases step with
  | enter | leave => simp
  | call within | bind within | cancel within => simpa [within] using holds
  | ready starts => simpa [starts] using holds
  | wake wakes | stray wakes | retry wakes | giveUp wakes => simpa [wakes] using holds
  | join joins => simpa [joins] using holds
  | visit => exact holds
  | @act listener _ _ acts free =>
      cases acts with
      | accept | fail | look | miss | publish | close => exact holds
      | seize tries =>
          have free : threads.holder = none := free
          simpa [free] using holds
      | release done =>
          have held : threads.holder = some (.acceptor listener) :=
            (custody.fits listener).holds_iff.mpr (by rw [done]; rfl)
          simpa [held] using holds

theorem legal_step (custody : Custody threads) (step : Step threads action next) :
    ∀ part, next.program.part? = some part →
      part.move.isLocked = true ∧ part.Legal next.net := by
  have legal := custody.legal
  cases step with
  | enter locked outside free =>
      rintro _ ⟨⟩
      exact ⟨locked, Section.legal_of_nil _ _⟩
  | call within _ made | bind within made | cancel within made =>
      rintro _ ⟨⟩
      exact ⟨(legal _ (congrArg Program.part? within)).1, made⟩
  | ready starts => simpa [starts] using legal
  | wake wakes | stray wakes | retry wakes | giveUp wakes => simpa [wakes] using legal
  | join joins => simpa [joins] using legal
  | leave => exact nofun
  | visit => exact legal
  | act acts free =>
      rcases hands_cases acts with nothing | ⟨rfl, caller, publishes⟩
      · rw [nothing]
        exact legal
      · intro part within
        cases (custody.publishes publishes).1.symm.trans within

theorem latest_step (custody : Custody threads) (step : Step threads action next) :
    ∀ listener, next.tracked = some listener ∨ next.program.stops? = some listener →
      listener + 1 = next.spawned := by
  have latest := custody.latest
  cases step with
  | enter locked outside free => simpa [tracked, outside] using latest
  | call within plain legal =>
      have same := legal.tracks_of_isPlain plain
      simpa [tracked, within, same] using latest
  | bind within legal vacant => simp [tracked, Call.tracks]
  | ready starts => simpa [tracked, starts] using latest
  | cancel within legal =>
      have was_tracked := legal.tracking_of_unlisten
      simpa [tracked, within, was_tracked, Call.tracks] using latest
  | wake wakes | stray wakes | retry wakes => simpa [tracked, wakes] using latest
  | giveUp wakes | join wakes =>
      intro listener either
      exact latest listener (.inl (by simpa [tracked, wakes] using either))
  | leave within plays =>
      have same := plays.listener_eq
      simpa [tracked, within, same, Network.tracking] using latest
  | visit => exact latest
  | act acts free =>
      rcases hands_cases acts with nothing | ⟨rfl, caller, publishes⟩
      · rw [nothing]
        exact latest
      · intro listener either
        rw [custody.tracked_of_publish publishes] at either
        cases either with
        | inl still => cases still
        | inr stops => exact latest listener (.inr stops)

/-- Ports stay, and what has ended stays so. -/
theorem superseded_put (custody : Custody threads) {listener : ListenerId} {acceptor : Acceptor}
    (port : acceptor.port = (threads.acceptors listener).port)
    (ended : (threads.acceptors listener).phase = .gone → acceptor.phase = .gone) :
    ∀ earlier later, earlier < later → later < threads.spawned →
      ((threads.put listener acceptor).acceptors earlier).port =
          ((threads.put listener acceptor).acceptors later).port →
        ((threads.put listener acceptor).acceptors earlier).phase = .gone := by
  have ports : ∀ other, ((threads.put listener acceptor).acceptors other).port =
      (threads.acceptors other).port :=
    forall_put (fun other acceptor => acceptor.port = (threads.acceptors other).port)
      port fun _ _ => rfl
  have stays : ∀ other, (threads.acceptors other).phase = .gone →
      ((threads.put listener acceptor).acceptors other).phase = .gone :=
    forall_put (fun other acceptor =>
      (threads.acceptors other).phase = .gone → acceptor.phase = .gone) ended fun _ _ gone => gone
  intro earlier later before spawned same
  rw [ports, ports] at same
  exact stays earlier (custody.superseded earlier later before spawned same)

theorem superseded_step (custody : Custody threads) (step : Step threads action next) :
    ∀ earlier later, earlier < later → later < next.spawned →
      (next.acceptors earlier).port = (next.acceptors later).port →
        (next.acceptors earlier).phase = .gone := by
  have superseded := custody.superseded
  cases step with
  | enter | call | stray | retry | giveUp | join | leave => exact superseded
  | @bind part within place legal vacant =>
      intro earlier later before spawned same
      have below : later ≤ threads.spawned := Nat.le_of_lt_succ spawned
      have old : earlier ≠ threads.spawned := Nat.ne_of_lt (Nat.lt_of_lt_of_le before below)
      dsimp only at same ⊢
      rw [put_of_ne _ _ _ old] at same ⊢
      rcases Nat.lt_or_eq_of_le below with older | rfl
      · rw [put_of_ne _ _ _ (Nat.ne_of_lt older)] at same
        exact superseded earlier later before older same
      · rw [put_self] at same
        by_contra present
        exact vacant earlier (Phase.isBound_of_ne present) same
  | cancel | wake | visit => exact custody.superseded_put rfl id
  | ready starts signals =>
      exact custody.superseded_put rfl fun gone => nomatch signals.symm.trans gone
  | act acts free => exact custody.superseded_put acts.port_eq fun gone => nomatch acts.ne_gone gone

theorem listening_step (custody : Custody threads) (step : Step threads action next) :
    ∀ part listener, next.program = .starting part listener →
      ∃ earlier place, part.calls = earlier ++ [.listen place (some listener)] := by
  cases step with
  | bind within legal vacant =>
      rintro _ _ ⟨⟩
      exact ⟨_, _, rfl⟩
  | enter | call | ready | cancel | wake | stray | retry | giveUp | join | leave => exact nofun
  | visit | act => exact custody.listening

end Custody

/-- What happens keeps everything as it is to be. -/
theorem Custody.step {threads next : Threads} {action : Action} (custody : Custody threads)
    (step : Step threads action next) : Custody next where
  fits := custody.fits_step step
  agrees := custody.agrees_step step
  program_holds := custody.program_holds_step step
  legal := custody.legal_step step
  latest := custody.latest_step step
  superseded := custody.superseded_step step
  listening := custody.listening_step step

theorem Run.custody {first last : Threads} {actions : List Action} (run : Run first actions last)
    (custody : Custody first) : Custody last := by
  induction run with
  | none => exact custody
  | more _ step ih => exact ih.step step

end Threads

end TapeNet
