import TapeNet.CommandLine.Session
import TapeNet.Loopback.Transport
import TapeNet.Proofs.Block.Lasting
import TapeNet.Proofs.Machine.Budget
import TapeNet.Proofs.Machine.Output
import TapeNet.Proofs.Source.Reading

/-!
# Sessions with and without a limit

Without a limit, a session runs in rounds, and so many rounds are one run with
as many budgets taken together.  A session that ends within a limit therefore
ends without one, and in the same way.  Limits go up to `largestBudget`; where a
larger number stands for one here, it speaks of that many steps.  A session
without a limit never ends exactly if its program goes on for any number of
steps, and some programs that no limit is enough for do end.  What a session
writes is the announcement, if there is one, and then what the program writes
when it is run on its own.
-/

namespace TapeNet

namespace Machine

variable {σ : Type} (transport : Transport σ)

theorem runRounds_eq_runParts (rounds : Nat) (m : Machine σ) :
    m.runRounds transport rounds = runParts transport (List.replicate rounds largestBudget) m := by
  induction rounds generalizing m with
  | zero => rfl
  | succ rounds ih =>
      rw [List.replicate_succ, runRounds, runParts]
      rcases m.run transport largestBudget with ⟨last, stop⟩
      cases stop with
      | budgetSpent => exact ih last
      | _ => rfl

/-- Several rounds are one run with as many budgets taken together. -/
theorem runRounds_eq (rounds : Nat) (m : Machine σ) :
    m.runRounds transport rounds = m.run transport (rounds * largestBudget) := by
  rw [runRounds_eq_runParts, runParts_eq, List.sum_replicate_nat]

end Machine

namespace CommandLine

namespace Session

variable {σ : Type}

/-- Why the program of a session stopped, if it was started. -/
def stop? : Session σ → Option Stop
  | .ran _ stop => some stop
  | .failed _ _ => none

/-- The bytes that a session writes before its program starts. -/
def preface (m : Machine σ) : List UInt8 :=
  if m.code.hasExtensions .net then announcement.toUTF8.toList else []

/-- A sink that takes everything takes the announcement. -/
theorem announce_of_takesAll (m : Machine σ) {sink : Sink} (takes : sink.TakesAll) :
    ∃ next, announce m sink = (.ok (), next) ∧ next.TakesAll ∧
      next.taken = sink.taken ++ (preface m).toArray := by
  unfold announce preface
  split
  · exact takes.announce _
  · exact ⟨sink, rfl, takes, Array.append_empty.symm⟩

section

variable (transport : Transport σ) (arguments : RunArguments) (chosen : Options)
  (opened : Except String Source) (world : σ) (source : Source) (sink : Sink)

/-- A session with a limit; it takes no rounds. -/
def limited (limit : Nat) : Session σ :=
  execute transport 0 arguments chosen opened (some limit) source sink world

/-- A session without a limit, as far as it comes in so many rounds. -/
def unlimited (rounds : Nat) : Session σ :=
  execute transport rounds arguments chosen opened none source sink world

/-- A session without a limit comes to its end, after some number of rounds. -/
def EndsAs (session : Session σ) : Prop :=
  ∃ rounds, unlimited transport arguments chosen opened world source sink rounds = session ∧
    session.stop? ≠ some .budgetSpent

variable {m : Machine σ}

/-- A session whose announcement is written runs the program with the rest of the sink. -/
theorem prepare_of_announced (loads : load arguments chosen opened world = .ok m) {next : Sink}
    (announced : announce m sink = (.ok (), next)) :
    prepare arguments chosen opened source sink world = .ok (m.fitted source next) := by
  simp only [prepare, loads, announced]
  rfl

theorem limited_of_announced (loads : load arguments chosen opened world = .ok m) {next : Sink}
    (announced : announce m sink = (.ok (), next)) (limit : Nat) :
    limited transport arguments chosen opened world source sink limit =
      .ran ((m.fitted source next).run transport limit).1
        ((m.fitted source next).run transport limit).2 := by
  simp only [limited, execute, prepare_of_announced arguments chosen opened world source sink loads
    announced, drive]

theorem unlimited_of_announced (loads : load arguments chosen opened world = .ok m) {next : Sink}
    (announced : announce m sink = (.ok (), next)) (rounds : Nat) :
    unlimited transport arguments chosen opened world source sink rounds =
      limited transport arguments chosen opened world source sink
        (rounds * Machine.largestBudget) := by
  rw [limited_of_announced transport arguments chosen opened world source sink loads announced]
  simp only [unlimited, execute, prepare_of_announced arguments chosen opened world source sink
    loads announced, drive, Machine.runRounds_eq]

/-- A program whose announcement fails is not started, however it was to be run. -/
theorem execute_of_unannounced (loads : load arguments chosen opened world = .ok m)
    (speaks : m.code.hasExtensions .net = true) {reason : String} {left : Sink}
    (fails : sink.announce announcement.toUTF8.toList = (.error reason, left)) (rounds : Nat)
    (limit : Option Nat) :
    execute transport rounds arguments chosen opened limit source sink world =
      .failed ⟨reason, []⟩ left := by
  have unannounced : announce m sink = (.error reason, left) := (if_pos speaks).trans fails
  simp only [execute, prepare, loads, unannounced]

/-- Sessions of one program with and without limits, compared with the program on its own. -/
structure Limits (m : Machine σ) : Prop where
  /-- The program is the one that the source holds, with the options of the session. -/
  loaded : ∃ text, opened = .ok text ∧
    Machine.load text (options arguments chosen) world = .ok m
  /-- A session that ends within a limit ends alike within a larger one, and without any. -/
  ended : ∀ limit,
    (limited transport arguments chosen opened world source sink limit).stop? ≠
        some .budgetSpent →
      (∀ larger, limit ≤ larger →
        limited transport arguments chosen opened world source sink larger =
          limited transport arguments chosen opened world source sink limit) ∧
      ∀ session, EndsAs transport arguments chosen opened world source sink session ↔
        session = limited transport arguments chosen opened world source sink limit
  /-- A session without a limit never ends exactly if the program goes on for ever. -/
  endless_iff : (∀ session, ¬ EndsAs transport arguments chosen opened world source sink session) ↔
    ∀ count, ∃ last, Machine.Proceeds transport count (m.fitted source {}) last
  /-- So many rounds without a limit are a session with as many budgets for its limit. -/
  rounds_eq : ∀ rounds, unlimited transport arguments chosen opened world source sink rounds =
    limited transport arguments chosen opened world source sink (rounds * Machine.largestBudget)
  /-- A session ends like the program on its own, and writes as much behind the announcement. -/
  output : ∀ limit, ∃ last,
    limited transport arguments chosen opened world source sink limit =
      .ran last ((m.fitted source {}).run transport limit).2 ∧
    last.report = ((m.fitted source {}).run transport limit).1.report ∧
    last.sink.taken = sink.taken ++ (preface m).toArray ++
      ((m.fitted source {}).run transport limit).1.sink.taken
  /--
  A program whose announcement cannot be written is not started, whatever its
  limit and its input would have been: nothing remains but what the writes of
  the announcement left behind.
  -/
  unannounced : m.code.hasExtensions .net = true →
    ∀ (faulty : Sink) (reason : String) (left : Sink),
      faulty.announce announcement.toUTF8.toList = (.error reason, left) →
        ∀ rounds limit input,
          execute transport rounds arguments chosen opened limit input faulty world =
            .failed ⟨reason, []⟩ left

theorem exists_text_of_load (loads : load arguments chosen opened world = .ok m) :
    ∃ text, opened = .ok text ∧ Machine.load text (options arguments chosen) world = .ok m := by
  unfold load at loads
  split at loads
  · cases loads
  · next text =>
      refine ⟨text, rfl, ?_⟩
      split at loads
      · next loaded =>
          cases loads
          exact loaded
      · split at loads <;> cases loads

theorem limited_of_le (loads : load arguments chosen opened world = .ok m) {next : Sink}
    (announced : announce m sink = (.ok (), next)) {limit larger : Nat} (le : limit ≤ larger)
    (ended : (limited transport arguments chosen opened world source sink limit).stop? ≠
      some .budgetSpent) :
    limited transport arguments chosen opened world source sink larger =
      limited transport arguments chosen opened world source sink limit := by
  have runs := limited_of_announced transport arguments chosen opened world source sink loads
    announced
  rw [runs] at ended
  have stopped : ((m.fitted source next).run transport limit).2 ≠
      .budgetSpent := fun spent => ended (congrArg some spent)
  rw [runs, runs, Machine.run_of_le rfl stopped le]

/-- A session that ends within a limit ends in this way without one, and in no other. -/
theorem endsAs_iff (loads : load arguments chosen opened world = .ok m) {next : Sink}
    (announced : announce m sink = (.ok (), next)) {limit : Nat}
    (ended : (limited transport arguments chosen opened world source sink limit).stop? ≠
      some .budgetSpent) (session : Session σ) :
    EndsAs transport arguments chosen opened world source sink session ↔
      session = limited transport arguments chosen opened world source sink limit := by
  have rounds_eq := unlimited_of_announced transport arguments chosen opened world source sink
    loads announced
  constructor
  · rintro ⟨rounds, rfl, ends⟩
    rw [rounds_eq] at ends ⊢
    rcases Nat.le_total limit (rounds * Machine.largestBudget) with le | le
    · exact limited_of_le transport arguments chosen opened world source sink loads announced le
        ended
    · exact (limited_of_le transport arguments chosen opened world source sink loads announced le
        ends).symm
  · rintro rfl
    have positive : 1 ≤ Machine.largestBudget := by decide
    refine ⟨limit, ?_, ended⟩
    rw [rounds_eq]
    exact limited_of_le transport arguments chosen opened world source sink loads announced
      (Nat.le_mul_of_pos_right limit positive) ended

/-- A session never ends without a limit exactly if no number of steps is enough for its program. -/
theorem endless_iff_limited (loads : load arguments chosen opened world = .ok m) {next : Sink}
    (announced : announce m sink = (.ok (), next)) :
    (∀ session, ¬ EndsAs transport arguments chosen opened world source sink session) ↔
      ∀ limit, (limited transport arguments chosen opened world source sink limit).stop? =
        some .budgetSpent := by
  constructor
  · intro never limit
    apply Decidable.byContradiction
    intro ended
    have ends := endsAs_iff transport arguments chosen opened world source sink loads announced
      ended
    exact never _ ((ends _).mpr rfl)
  · rintro spent session ⟨rounds, rfl, ends⟩
    rw [unlimited_of_announced transport arguments chosen opened world source sink loads
      announced] at ends
    exact ends (spent _)

/-- A session without a limit agrees with those that have one, and with the program on its own. -/
theorem limits (loads : load arguments chosen opened world = .ok m) (takes : sink.TakesAll) :
    Limits transport arguments chosen opened world source sink m := by
  obtain ⟨next, announced, takes', taken⟩ := announce_of_takesAll m takes
  have rounds_eq := unlimited_of_announced transport arguments chosen opened world source sink
    loads announced
  have runs := limited_of_announced transport arguments chosen opened world source sink loads
    announced
  refine ⟨exists_text_of_load arguments chosen opened world loads, ?_, ?_, rounds_eq, ?_, ?_⟩
  · intro limit ended
    refine ⟨?_, endsAs_iff transport arguments chosen opened world source sink loads announced
      ended⟩
    intro larger le
    exact limited_of_le transport arguments chosen opened world source sink loads announced le ended
  · rw [endless_iff_limited transport arguments chosen opened world source sink loads announced]
    refine forall_congr' fun limit => ?_
    have alike := ((Machine.apart_fitted m source takes').run transport limit).2
    rw [runs, stop?, Option.some.injEq, alike, Machine.run_spent_iff]
  · intro limit
    obtain ⟨apart, stop⟩ := (Machine.apart_fitted m source takes').run transport limit
    refine ⟨((m.fitted source next).run transport limit).1, ?_, ?_, ?_⟩
    · rw [runs, stop]
    · rw [apart.same]
    · rw [apart.taken, taken]
  · intro speaks faulty reason left fails rounds limit input
    exact execute_of_unannounced transport arguments chosen opened world input faulty loads speaks
      fails rounds limit

end

/-- A program that uses the network extension and writes one byte. -/
def speakingText : List UInt8 :=
  (['t', 'l', ':', 'n', 'e', 't', ':', '+', '.'] : List Char).map Char.toUInt8

theorem limits_speakingText :
    load { file := "a" } {} (.ok (.ofBytes speakingText)) ({} : Loopback) =
        .ok (.start (.parse speakingText) {} {}) ∧
      Sink.TakesAll {} ∧
      Limits Loopback.transport { file := "a" } {} (.ok (.ofBytes speakingText)) {} {} {}
        (.start (.parse speakingText) {} {}) := by
  have loads : load { file := "a" } {} (.ok (.ofBytes speakingText)) ({} : Loopback) =
      .ok (.start (.parse speakingText) {} {}) := rfl
  exact ⟨loads, Sink.takesAll_blank,
    limits Loopback.transport { file := "a" } {} _ {} {} {} loads Sink.takesAll_blank⟩

/-- A program that takes as many steps as the largest limit allows before it finishes. -/
def enduringText : List UInt8 :=
  Machine.lastingText 8 Machine.largestBudget

/-- A session may spend every limit and still end without one. -/
theorem endsAs_enduringText :
    (∀ limit ≤ Machine.largestBudget,
      (limited Loopback.transport { file := "a" } {} (.ok (.ofBytes enduringText)) {} {} {}
        limit).stop? = some .budgetSpent) ∧
      ∃ session, EndsAs Loopback.transport { file := "a" } {} (.ok (.ofBytes enduringText)) {} {} {}
        session := by
  have loads : load { file := "a" } {} (.ok (.ofBytes enduringText)) ({} : Loopback) =
      .ok (.start (.parse enduringText) {} {}) := by
    simp only [load, Machine.load, Source.readAll_ofBytes]
    rfl
  have silent : announce (.start (.parse enduringText) {} ({} : Loopback)) {} = (.ok (), {}) := by
    rw [enduringText, Machine.parse_lastingText]
    rfl
  have runs := limited_of_announced Loopback.transport { file := "a" } {} _ {} {} {} loads silent
  obtain ⟨last, steps, ends⟩ : ∃ last, Machine.Proceeds Loopback.transport Machine.largestBudget
      (Machine.fitted (.start (.parse enduringText) {} {}) {} {}) last ∧
        last.step Loopback.transport = (last, some .finished) :=
    Machine.lastingText_finishes rfl rfl (Tape.clear_blank (by decide))
  constructor
  · intro limit le
    rw [runs, stop?, Machine.run_spent_iff.mpr (steps.of_le le)]
  · have finished := steps.run_stops ends (Nat.lt_succ_self _)
    have ended : (limited Loopback.transport { file := "a" } {} (.ok (.ofBytes enduringText)) {} {}
        {} (Machine.largestBudget + 1)).stop? ≠ some .budgetSpent := by
      rw [runs, finished]
      intro same
      cases same
    exact ⟨_, (endsAs_iff Loopback.transport { file := "a" } {} _ {} {} {} loads silent ended
      _).mpr rfl⟩

end Session

end CommandLine

end TapeNet
