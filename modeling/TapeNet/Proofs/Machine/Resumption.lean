import TapeNet.Proofs.Machine.Account
import TapeNet.Proofs.Machine.Failure
import TapeNet.Proofs.Machine.Program
import TapeNet.Proofs.Machine.Progress

/-!
# Resumption

A program that stops may be run again.  The instructions that are executed over
any number of runs are those that the program leads to, one after the other,
whatever stops it in between: a failure is followed by the instruction behind
the one that failed, and none is left out or executed again for it.
-/

namespace TapeNet

namespace Code

/-- Where a program may go on behind an instruction: the next one, or the end of its jump. -/
inductive Leads (code : Code) (place : Nat) : Nat → Prop where
  | on : Leads code place (place + 1)
  | past (opens : code.bytes[place]? = some Opcode.loopStart.byte) :
      Leads code place
        (({ code with pc := place + 1 } : Code).jumpForward Opcode.loopEnd.byte).2.pc
  | back (closes : code.bytes[place]? = some Opcode.loopEnd.byte) :
      Leads code place
        (({ code with pc := place + 1 } : Code).jumpBackward Opcode.loopStart.byte).2.pc

/-- A program goes over instructions at some places, one after the other, up to another place. -/
inductive Passage (code : Code) : Nat → List Nat → Nat → Prop where
  | here (place : Nat) : Passage code place [] place
  | step {place next last : Nat} {places : List Nat} (leads : code.Leads place next)
      (rest : Passage code next places last) : Passage code place (place :: places) last

namespace Passage

variable {code : Code}

theorem append {first middle last : Nat} {places later : List Nat}
    (before : Passage code first places middle) (after : Passage code middle later last) :
    Passage code first (places ++ later) last := by
  induction before with
  | here => exact after
  | step leads _ ih => exact .step leads (ih after)

theorem row (place count : Nat) : Passage code place (List.range' place count) (place + count) := by
  induction count generalizing place with
  | zero => exact .here place
  | succ count ih =>
      have rest := ih (place + 1)
      rw [Nat.add_assoc, Nat.add_comm 1 count] at rest
      exact .step .on rest

end Passage

end Code

namespace Machine

variable {σ : Type} (transport : Transport σ)

/-- The places of the instructions that a step executes, as many as it counts. -/
def places (m : Machine σ) : List Nat :=
  List.range' m.code.pc ((m.step transport).1.report.total - m.report.total)

/-- The places of the instructions that a run executes. -/
def runPlaces : Nat → Machine σ → List Nat
  | 0, _ => []
  | budget + 1, m =>
    places transport m ++
      match m.step transport with
      | (m, none) => runPlaces budget m
      | (_, some _) => []

/-- The places of the instructions that several runs execute, whatever stops each of them. -/
def placesOver : List Nat → Machine σ → List Nat
  | [], _ => []
  | budget :: budgets, m =>
    runPlaces transport budget m ++ placesOver budgets (m.run transport budget).1

variable {m : Machine σ}

theorem leads_landing {op : Opcode} (next : m.IsNext op) :
    m.code.reset.Leads m.code.pc (m.landing op) := by
  cases op with
  | loopStart =>
      unfold landing
      dsimp only
      split
      · exact .past next
      · exact .on
  | loopEnd =>
      unfold landing
      dsimp only
      split
      · exact .on
      · exact .back next
  | _ => exact .on

variable {transport}

/-- A step executes one instruction, several that are the same and follow each other, or none. -/
theorem Effect.passage {result : Machine σ × Option Stop} (effect : Effect transport m result)
    (inside : m.WellFormed) :
    ∃ count, result.1.report.total = m.report.total + count ∧
      m.code.reset.Passage m.code.pc (List.range' m.code.pc count) result.1.code.pc ∧
      ∀ place ∈ List.range' m.code.pc count, m.code.bytes[place]? = m.code.bytes[m.code.pc]? := by
  cases effect with
  | ended => exact ⟨0, (Nat.add_zero _).symm, .here _, nofun⟩
  | @row op _ count same _ =>
      have most := (Tape.executed_bounds inside.tape op count).2
      refine ⟨m.tape.executed op (count + 1), Report.total_record _ _ _, .row _ _, ?_⟩
      intro place member
      obtain ⟨before, behind⟩ := List.mem_range'_1.mp member
      have here : m.code.bytes[m.code.pc]? = some op.byte := same 0 (Nat.zero_le _)
      have there := same (place - m.code.pc) (by omega)
      rw [Nat.add_sub_cancel' before] at there
      rw [here, there]
  | @alone op _ next =>
      refine ⟨1, ?_, ?_, ?_⟩
      · rw [alone_report, Report.total_record]
      · rw [alone_code]
        exact .step (leads_landing next) (.here _)
      · intro place member
        rw [List.mem_singleton.mp member]

section

variable (transport)

theorem WellFormed.step_passage (inside : m.WellFormed) :
    m.code.reset.Passage m.code.pc (places transport m) (m.step transport).1.code.pc ∧
      ∀ place ∈ places transport m, m.code.bytes[place]? = m.code.bytes[m.code.pc]? := by
  obtain ⟨count, total, passage⟩ := (inside.effect transport).passage inside
  rw [places, total, Nat.add_sub_cancel_left]
  exact passage

/-- The instructions that stand at the places of a step are those that it executes. -/
theorem WellFormed.step_executions (inside : m.WellFormed) :
    (executions (Logged.step transport m).log).map (fun op => some op.byte) =
      (places transport m).map (m.code.bytes[·]?) := by
  have same := (inside.step_passage transport).2
  rcases inside.step_cases transport with ⟨ended, finished⟩ | ⟨op, here, decoded, executed⟩
  · rw [Logged.step_of_end transport (Array.getElem?_eq_none (Nat.le_of_eq ended.symm)), places,
      finished, Nat.sub_self]
    rfl
  · obtain ⟨count, length, once⟩ := m.batch_succ here
    have single (plain : op.isFoldable = false) : count = 0 :=
      once (by rw [plain, Bool.and_false])
    have ready : ({ m with code := (m.batch op m.popped).2 } : Machine σ).tape.WellFormed :=
      inside.tape
    have logged := (Logged.perform_executions transport ready single).1
    have row : executions (Logged.step transport m).log =
        List.replicate (m.tape.executed op (count + 1)) op := by
      rw [Logged.step_of_opcode transport here decoded, length, Logged.answer, executions_append,
        Logged.execute, WithLog.map, logged]
      exact List.append_nil _
    have total : (m.step transport).1.report.total =
        m.report.total + m.tape.executed op (count + 1) := by
      rw [executed, length, execute_report, Report.total_record]
    rw [row, List.map_replicate, List.map_congr_left same, List.map_const', places,
      List.length_range', total, Nat.add_sub_cancel_left, here]

/-- The instructions that stand at the places of a run are those that it executes. -/
theorem WellFormed.run_executions (inside : m.WellFormed) (budget : Nat) :
    (executions (Logged.run transport budget m).log).map (fun op => some op.byte) =
      (runPlaces transport budget m).map (m.code.bytes[·]?) := by
  induction budget generalizing m with
  | zero => rfl
  | succ budget ih =>
      have once := inside.step_executions transport
      have same := Logged.step_result transport inside
      have kept := step_wellFormed transport inside
      have bytes := bytes_step transport m
      unfold Logged.run runPlaces
      rw [← same] at kept bytes ⊢
      generalize Logged.step transport m = logged at once kept bytes ⊢
      obtain ⟨⟨next, stop⟩, log⟩ := logged
      cases stop with
      | none =>
          have rest := ih kept
          rw [bytes] at rest
          simp only [WithLog.after, executions_append, List.map_append, once, rest]
      | some stop =>
          rw [List.append_nil]
          exact once

/-- A run goes over its places, from where the program is to where it goes on. -/
theorem WellFormed.run_passage (inside : m.WellFormed) (budget : Nat) :
    m.code.reset.Passage m.code.pc (runPlaces transport budget m)
      (m.run transport budget).1.code.pc := by
  induction budget generalizing m with
  | zero => exact .here _
  | succ budget ih =>
      have once := (inside.step_passage transport).1
      have kept := step_wellFormed transport inside
      have same := reset_step transport m
      unfold run runPlaces
      generalize m.step transport = result at once kept same ⊢
      obtain ⟨next, stop⟩ := result
      cases stop with
      | none => exact once.append (same ▸ ih kept)
      | some stop =>
          rw [List.append_nil]
          exact once

theorem WellFormed.passage_over (inside : m.WellFormed) (budgets : List Nat) :
    m.code.reset.Passage m.code.pc (placesOver transport budgets m)
      (live transport (budgets.map .run) m).code.pc := by
  induction budgets generalizing m with
  | nil => exact .here _
  | cons budget budgets ih =>
      have rest := ih (run_wellFormed transport inside budget)
      rw [reset_run] at rest
      exact (inside.run_passage transport budget).append rest

theorem WellFormed.executions_over (inside : m.WellFormed) (budgets : List Nat) :
    (executions (Logged.live transport (budgets.map .run) m).log).map (fun op => some op.byte) =
      (placesOver transport budgets m).map (m.code.bytes[·]?) := by
  induction budgets generalizing m with
  | nil => rfl
  | cons budget budgets ih =>
      have first := inside.run_executions transport budget
      have rest := ih (run_wellFormed transport inside budget)
      rw [bytes_run] at rest
      simp only [List.map_cons, Logged.live, Logged.apply, WithLog.map, WithLog.after,
        Logged.run_result transport inside, executions_append, List.map_append, placesOver, first,
        rest]

theorem WellFormed.step_failed (inside : m.WellFormed) :
    ∀ stop ∈ Stop.failures, (m.step transport).2 = some stop →
      ∃ op attempts, Failed m op attempts (m.step transport).1 stop :=
  fun _ fails stops => (inside.effect transport).failed inside fails stops

/-- A step that fails goes on behind the last instruction that it executed. -/
theorem Failed.places {op : Opcode} {attempts : Nat} {stop : Stop}
    (failed : Failed m op attempts (m.step transport).1 stop) :
    ∃ earlier place, places transport m = earlier ++ [place] ∧
      (m.step transport).1.code.pc = place + 1 := by
  obtain ⟨before, rfl⟩ := Nat.exists_eq_add_of_le' failed.positive
  refine ⟨List.range' m.code.pc before, m.code.pc + before, ?_, ?_⟩
  · rw [Machine.places, failed.total, Nat.add_sub_cancel_left, List.range'_1_concat]
  · rw [failed.code]
    rfl

/-- A run that fails goes on behind the last instruction that it executed. -/
theorem WellFormed.run_behind (inside : m.WellFormed) {budget : Nat}
    (fails : (m.run transport budget).2 ∈ Stop.failures) :
    ∃ earlier place, runPlaces transport budget m = earlier ++ [place] ∧
      (m.run transport budget).1.code.pc = place + 1 := by
  induction budget generalizing m with
  | zero => simp [run, Stop.failures] at fails
  | succ budget ih =>
      have failed := inside.step_failed transport
      have kept := step_wellFormed transport inside
      unfold run at fails ⊢
      unfold runPlaces
      rcases stepped : m.step transport with ⟨next, _ | stop⟩
      · rw [stepped] at fails kept
        obtain ⟨earlier, place, rest, behind⟩ := ih kept fails
        refine ⟨places transport m ++ earlier, place, ?_, behind⟩
        rw [List.append_assoc, ← rest]
      · rw [stepped] at fails
        have stops : (m.step transport).2 = some stop := congrArg Prod.snd stepped
        obtain ⟨op, attempts, failed⟩ := failed stop fails stops
        have ends := failed.places
        rw [stepped] at ends
        rw [List.append_nil]
        exact ends

/-- What a machine does about failures. -/
structure Resumes (m : Machine σ) : Prop where
  /-- A step that fails leaves a machine behind that may go on. -/
  failed : ∀ stop ∈ Stop.failures, (m.step transport).2 = some stop →
    ∃ op attempts, Failed m op attempts (m.step transport).1 stop
  /-- A run that fails is resumed behind the instruction that failed. -/
  behind : ∀ budget, (m.run transport budget).2 ∈ Stop.failures →
    ∃ earlier place, runPlaces transport budget m = earlier ++ [place] ∧
      (m.run transport budget).1.code.pc = place + 1
  /-- Over several runs the program goes from each instruction to one that it leads to. -/
  passage : ∀ budgets, m.code.reset.Passage m.code.pc (placesOver transport budgets m)
    (live transport (budgets.map .run) m).code.pc
  /-- What is executed over several runs is what stands at these places. -/
  executions : ∀ budgets,
    (executions (Logged.live transport (budgets.map .run) m).log).map (fun op => some op.byte) =
      (placesOver transport budgets m).map (m.code.bytes[·]?)

theorem WellFormed.resumes (inside : m.WellFormed) : Resumes transport m where
  failed := inside.step_failed transport
  behind _ fails := inside.run_behind transport fails
  passage := inside.passage_over transport
  executions := inside.executions_over transport

/--
At any time of a machine's life, an instruction that fails is executed once and
damages nothing.
-/
theorem live_resumes (text : List UInt8) (options : Options) (world : σ) (source : Source)
    (sink : Sink) (operations : List Operation) :
    Resumes transport (live transport operations (about text options world source sink)) := by
  have inside := about_wellFormed text options world source sink
  exact (live_wellFormed transport inside operations).resumes transport

end

end Machine

end TapeNet
