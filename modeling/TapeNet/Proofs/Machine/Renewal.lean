import TapeNet.Proofs.Machine.Isolation
import TapeNet.Proofs.Machine.Output
import TapeNet.Proofs.Machine.Program
import TapeNet.Proofs.Report.Merge

/-!
# Machines that are reset

A machine that is reset keeps its network, the world behind it and its report;
all else that a program without the network extension can read or change is as
in a fresh machine.  Such a program therefore goes through the same steps in
both, and what it adds to the report of the one is the report of the other.
-/

namespace TapeNet

namespace Machine

variable {σ : Type} (transport : Transport σ)

/-- A machine, but with the network and the world of an earlier one, and its report in front. -/
def upon (m before : Machine σ) : Machine σ :=
  { m with
    network := before.network
    world := before.world
    report := before.report + m.report }

@[simp] theorem upon_tape (m before : Machine σ) : (m.upon before).tape = m.tape :=
  rfl

/-- An opcode that does not need the network extension sees neither network, world nor report. -/
theorem perform_upon (m before : Machine σ) {op : Opcode} (plain : op.needs ≠ .net) (count : Nat) :
    (m.upon before).perform transport op count =
      ((m.perform transport op count).1.upon before, (m.perform transport op count).2) := by
  cases op with
  | moveRight | moveLeft | increment | decrement | output => rfl
  | input =>
      simp only [perform, readIn, upon]
      split <;> rfl
  | loopStart =>
      simp only [perform, enterLoop]
      rw [upon_tape]
      split <;> rfl
  | loopEnd =>
      simp only [perform, repeatLoop]
      rw [upon_tape]
      split <;> rfl
  | setTimeout | setPort | receive | queueSend | flush => exact absurd rfl plain

theorem execute_upon (m before : Machine σ) {op : Opcode} (plain : op.needs ≠ .net) (count : Nat) :
    (m.upon before).execute transport op count =
      ((m.execute transport op count).1.upon before, (m.execute transport op count).2) := by
  have performed := perform_upon transport m before plain count
  unfold execute
  simp only [performed]
  split
  · simp only [upon, Report.add_record]
  · simp only [upon, Report.add_record]

/-- Without the network extension, a machine takes the same step upon any earlier one. -/
theorem step_upon {m : Machine σ} (lacks : m.code.hasExtensions .net = false)
    (before : Machine σ) :
    (m.upon before).step transport =
      ((m.step transport).1.upon before, (m.step transport).2) := by
  rcases step_cases transport m with
    ⟨ended, finished⟩ | ⟨byte, here, unknown, stopped⟩ | ⟨op, here, decoded, executed⟩
  · have ended' : (m.upon before).code.bytes[(m.upon before).code.pc]? = none := ended
    rw [finished, step_of_end transport ended']
  · have here' : (m.upon before).code.bytes[(m.upon before).code.pc]? = some byte := here
    rw [stopped, step_of_unknown transport here' unknown]
    rfl
  · have here' : (m.upon before).code.bytes[(m.upon before).code.pc]? = some op.byte := here
    have plain := Opcode.needs_ne_net_of_decode? decoded lacks
    rw [executed, step_of_opcode transport here' decoded]
    exact execute_upon transport { m with code := (m.batch op m.popped).2 } before plain _

theorem run_upon {m : Machine σ} (lacks : m.code.hasExtensions .net = false) (before : Machine σ)
    (budget : Nat) :
    (m.upon before).run transport budget =
      ((m.run transport budget).1.upon before, (m.run transport budget).2) := by
  induction budget generalizing m with
  | zero => rfl
  | succ budget ih =>
      have stepped := step_upon transport lacks before
      have kept := (step_untouched transport lacks).lacks lacks
      unfold run
      rw [stepped]
      generalize m.step transport = result at kept ⊢
      obtain ⟨next, stop⟩ := result
      cases stop with
      | none => exact ih kept
      | some stop => rfl

/-- What makes a machine go on: a step, or a run with a budget. -/
inductive Advance where
  | step
  | run (budget : Nat)

/-- The machine behind an advance, and what it answers. -/
def Advance.make (m : Machine σ) : Advance → Machine σ × Option Stop
  | step => m.step transport
  | run budget => ((m.run transport budget).1, some (m.run transport budget).2)

/-- The machines behind several advances, each with its answer. -/
def trail : List Advance → Machine σ → List (Machine σ × Option Stop)
  | [], _ => []
  | advance :: advances, m =>
    advance.make transport m :: trail advances (advance.make transport m).1

theorem Advance.make_upon {m : Machine σ} (lacks : m.code.hasExtensions .net = false)
    (before : Machine σ) (advance : Advance) :
    advance.make transport (m.upon before) =
      ((advance.make transport m).1.upon before, (advance.make transport m).2) := by
  cases advance with
  | step => exact step_upon transport lacks before
  | run budget => simp only [make, run_upon transport lacks before budget]

theorem Advance.make_lacks {m : Machine σ} (lacks : m.code.hasExtensions .net = false)
    (advance : Advance) : (advance.make transport m).1.code.hasExtensions .net = false := by
  cases advance with
  | step => exact (step_untouched transport lacks).lacks lacks
  | run budget => exact (run_untouched transport lacks budget).lacks lacks

/--
What two machines have in common that were advanced alike, where the first one
continues an earlier one and the second one was started afresh.
-/
structure Continues (before : Machine σ) (renewed fresh : Machine σ × Option Stop) : Prop where
  stop : renewed.2 = fresh.2
  tape : renewed.1.tape = fresh.1.tape
  code : renewed.1.code = fresh.1.code
  source : renewed.1.source = fresh.1.source
  sink : renewed.1.sink = fresh.1.sink
  options : renewed.1.options = fresh.1.options
  /-- The earlier report stands in front of the fresh one. -/
  report : renewed.1.report = before.report + fresh.1.report
  network : renewed.1.network = before.network
  world : renewed.1.world = before.world

theorem trail_upon {m : Machine σ} (lacks : m.code.hasExtensions .net = false)
    (before : Machine σ) (advances : List Advance) :
    List.Forall₂ (Continues before) (trail transport advances (m.upon before))
      (trail transport advances m) := by
  induction advances generalizing m with
  | nil => exact .nil
  | cons advance advances ih =>
      have made := advance.make_upon transport lacks before
      simp only [trail, made]
      exact .cons ⟨rfl, rfl, rfl, rfl, rfl, rfl, rfl, rfl, rfl⟩
        (ih (advance.make_lacks transport lacks))

/-- What a reset leaves as it was, and what the machine does from then on. -/
structure Renews (text : List UInt8) (m : Machine σ) : Prop where
  network : m.reset.network = m.network
  world : m.reset.world = m.world
  options : m.reset.options = m.options
  report : m.reset.report = m.report
  bytes : m.reset.code.bytes = m.code.bytes
  extensions : m.reset.code.extensions = m.code.extensions
  /--
  With a new source and a new sink, the machine goes through the same steps as
  a fresh one that has them, wherever that one stands in the world.
  -/
  afresh : ∀ (elsewhere : σ) (source : Source) (sink : Sink) (advances : List Advance),
    List.Forall₂ (Continues m) (trail transport advances (m.reset.fitted source sink))
      (trail transport advances (about text m.options elsewhere source sink))

/-- A machine that is reset is a fresh one upon what it was. -/
theorem reset_eq_upon {m : Machine σ} {text : List UInt8} (same : m.code.reset = .parse text)
    (elsewhere : σ) (source : Source) (sink : Sink) :
    m.reset.fitted source sink = (about text m.options elsewhere source sink).upon m := by
  simp only [reset, fitted, upon, about, start, same, Report.add_blank]

/--
At any time of its life, a machine whose present program lacks the network
extension becomes a fresh one when it is reset, except for its report and for
the network, which it keeps.
-/
theorem live_renews (text : List UInt8) (options : Options) (world : σ) (source : Source)
    (sink : Sink) (operations : List Operation)
    (bare : Extensions.detect (program operations text) = .empty) :
    Renews transport (program operations text)
      (live transport operations (about text options world source sink)) := by
  have started : (about text options world source sink).code.reset = .parse text := rfl
  have present := reset_live transport started operations
  refine ⟨rfl, rfl, rfl, rfl, rfl, rfl, ?_⟩
  intro elsewhere source sink advances
  rw [reset_eq_upon present elsewhere source sink]
  exact trail_upon transport (about_isolated bare _ elsewhere source sink).lacks _ advances

/-- A program that queues a byte and leaves the tape. -/
def queueingText : List UInt8 :=
  ("tl:net:+^<<".toList).map Char.toUInt8

/-- The program fails, another one is read in two parts, and its run ends within a loop. -/
def leftOperations : List Operation :=
  [.run 9, .reload { script := [.bytes (("+[->".toList).map Char.toUInt8), .interrupted,
    .bytes (("+<]".toList).map Char.toUInt8)] }, .run 4]

theorem live_renews_withinLoop :
    Extensions.detect (program leftOperations queueingText) = .empty ∧
      Renews Loopback.transport (program leftOperations queueingText)
        (live Loopback.transport leftOperations
          (about queueingText { fold := true } {} {} {})) := by
  have bare : Extensions.detect (program leftOperations queueingText) = .empty := by
    decide +kernel
  have renews := live_renews Loopback.transport queueingText { fold := true } {} {} {}
    leftOperations bare
  exact ⟨bare, renews⟩

end Machine

end TapeNet
