import TapeNet.Loopback.Transport
import TapeNet.Proofs.Block.Lasting
import TapeNet.Proofs.Code.Pop
import TapeNet.Proofs.Report.Record

/-!
# Folding

A machine that folds takes fewer steps than one that does not, and nothing
else tells them apart.  One folded step corresponds to as many plain steps as
it records executions; of these, all but the last go on, and the last gives
the same result.  A run that stops therefore stops alike in both machines, and
a folded run that spends its budget corresponds to plain steps that are at least
as many.  They may be more than the largest budget there is.
-/

namespace TapeNet

namespace Machine

variable {σ : Type} (transport : Transport σ)

/-- Two machines agree on everything except folding and the number of steps. -/
structure Alike (first second : Machine σ) : Prop where
  code : first.code = second.code
  tape : first.tape = second.tape
  network : first.network = second.network
  world : first.world = second.world
  source : first.source = second.source
  sink : first.sink = second.sink
  addresses : first.options.addresses = second.options.addresses
  counts : first.report.counts = second.report.counts

/-- The machine behind a row of an opcode that may be folded, or behind the repetition that left the tape. -/
def behindRow (m : Machine σ) (op : Opcode) (count : Nat) : Machine σ :=
  { m with
    code := { m.code with pc := m.code.pc + m.tape.executed op count }
    tape := (m.tape.repeated op count).1
    report := m.report.recordEach op (m.tape.executed op count) }

/-- How a row of an opcode that may be folded ends. -/
def rowStop (m : Machine σ) (op : Opcode) (count : Nat) : Option Stop :=
  if (m.tape.repeated op count).2 then none else some .outOfBounds

/-- A row of which the first repetition stays on the tape goes on behind that repetition. -/
theorem behindRow_succ {m : Machine σ} {op : Opcode} (inside : m.tape.WellFormed)
    (stays : (m.tape.repeated op 1).2 = true) (count : Nat) :
    m.behindRow op (count + 1) = (m.behindRow op 1).behindRow op count ∧
      m.rowStop op (count + 1) = (m.behindRow op 1).rowStop op count := by
  have single := Tape.executed_one inside op
  have length := Tape.executed_succ stays inside count
  have tape := Tape.repeated_succ stays count
  constructor
  · simp only [behindRow, length, tape, single, Report.recordEach_recordEach, Nat.add_assoc,
      Nat.add_comm 1]
  · exact congrArg (fun ended : Tape × Bool => if ended.2 then none else some Stop.outOfBounds) tape

/-- What one step of a machine that does not fold does with an opcode that may be folded. -/
theorem step_single {m : Machine σ} {op : Opcode} (foldable : op.isFoldable = true)
    (off : m.options.fold = false) (inside : m.tape.WellFormed)
    (here : m.code.bytes[m.code.pc]? = some op.byte)
    (decoded : Opcode.decode? op.byte m.code.extensions = some op) :
    m.step transport = (m.behindRow op 1, m.rowStop op 1) := by
  have single : (m.options.fold && op.isFoldable) = false := by
    rw [off, Bool.false_and]
  rw [step_of_single transport here decoded single, execute_foldable transport _ foldable]
  simp only [Tape.executed_one inside, Nat.sub_self, Code.rewind, Nat.sub_zero, behindRow, rowStop]
  rfl

/--
A machine that does not fold works through a row one step at a time.  All
steps but the last go on; the last one ends the row or leaves the tape.
-/
theorem proceeds_row {op : Opcode} (foldable : op.isFoldable = true) (count : Nat)
    {m : Machine σ} (off : m.options.fold = false) (inside : m.tape.WellFormed)
    (decoded : Opcode.decode? op.byte m.code.extensions = some op)
    (row : ∀ index ≤ count, m.code.bytes[m.code.pc + index]? = some op.byte) :
    ∃ last, Proceeds transport (m.tape.executed op (count + 1) - 1) m last ∧
      last.step transport = (m.behindRow op (count + 1), m.rowStop op (count + 1)) := by
  have first := step_single transport foldable off inside (row 0 (Nat.zero_le _)) decoded
  induction count generalizing m with
  | zero =>
      rw [Tape.executed_one inside]
      exact ⟨m, .here m, first⟩
  | succ count ih =>
      cases stays : (m.tape.repeated op 1).2 with
      | false =>
          have stuck := Tape.repeated_of_leaves inside stays
          have single := Tape.executed_of_leaves inside stays
          refine ⟨m, ?_, ?_⟩
          · rw [single]
            exact .here m
          · rw [first]
            simp only [behindRow, rowStop, stuck, single]
      | true =>
          have goes : m.step transport = (m.behindRow op 1, none) := by
            rw [first, rowStop, if_pos stays]
          have moved : (m.behindRow op 1).code.pc = m.code.pc + 1 := by
            simp only [behindRow, Tape.executed_one inside]
          have shifted : ∀ index ≤ count,
              (m.behindRow op 1).code.bytes[(m.behindRow op 1).code.pc + index]? = some op.byte := by
            intro index within
            rw [moved, Nat.add_assoc, Nat.add_comm 1 index]
            exact row (index + 1) (Nat.succ_le_succ within)
          have later := inside.repeated op 1
          obtain ⟨last, steps, ends⟩ := ih (m := m.behindRow op 1) off later decoded shifted
            (step_single transport foldable off later (shifted 0 (Nat.zero_le _)) decoded)
          have length : m.tape.executed op (count + 1 + 1) =
              (m.behindRow op 1).tape.executed op (count + 1) + 1 :=
            Tape.executed_succ stays inside (count + 1)
          have positive : 1 ≤ (m.behindRow op 1).tape.executed op (count + 1) :=
            (Tape.executed_bounds later op count).1
          have fewer : m.tape.executed op (count + 1 + 1) - 1 =
              (m.behindRow op 1).tape.executed op (count + 1) - 1 + 1 := by
            omega
          have same := behindRow_succ inside stays (count + 1)
          refine ⟨last, ?_, ?_⟩
          · rw [fewer]
            exact .step goes steps
          · rw [ends, same.1, same.2]

/-- One step of a machine that folds is over with the whole row, or with the repetition that fails. -/
theorem step_row {m : Machine σ} {op : Opcode} (foldable : op.isFoldable = true)
    (on : m.options.fold = true) (inside : m.tape.WellFormed)
    (here : m.code.bytes[m.code.pc]? = some op.byte)
    (decoded : Opcode.decode? op.byte m.code.extensions = some op) :
    ∃ count, (∀ index ≤ count, m.code.bytes[m.code.pc + index]? = some op.byte) ∧
      m.step transport =
        ({ m.behindRow op (count + 1) with
            report := m.report.record op (m.tape.executed op (count + 1)) },
          m.rowStop op (count + 1)) := by
  obtain ⟨count, popped, row⟩ := Code.popRepeats_after_pop here
  have whole : m.batch op m.popped =
      (count + 1, { m.code with pc := m.code.pc + (count + 1) }) := by
    simp only [batch, on, foldable, Bool.and_self, if_true, Machine.popped, popped]
  have most := (Tape.executed_bounds inside op count).2
  have back : m.code.pc + (count + 1) - (count + 1 - m.tape.executed op (count + 1)) =
      m.code.pc + m.tape.executed op (count + 1) := by
    omega
  refine ⟨count, row, ?_⟩
  rw [step_of_opcode transport here decoded, whole, execute_foldable transport _ foldable]
  simp only [Code.rewind, back, behindRow, rowStop]

theorem Alike.eq {first second : Machine σ} (alike : Alike first second) :
    second = { first with options := second.options, report := second.report } := by
  obtain ⟨code, tape, network, world, source, sink, _, _⟩ := alike
  rw [code, tape, network, world, source, sink]

theorem Alike.record {first second : Machine σ} (alike : Alike first second) (op : Opcode)
    (count : Nat) :
    (first.report.record op count).counts = (second.report.record op count).counts := by
  simp only [Report.record, Report.count, alike.counts]

/-- Machines that agree do so after the same repetitions of the same opcode. -/
theorem Alike.execute {first second : Machine σ} (alike : Alike first second) (op : Opcode)
    (count : Nat) :
    Alike (first.execute transport op count).1 (second.execute transport op count).1 ∧
      (first.execute transport op count).2 = (second.execute transport op count).2 := by
  have frame := perform_with transport first second.options second.report op count
  rw [← alike.eq] at frame
  have options := perform_options transport first op count
  have report := perform_report transport first op count
  have addresses : (first.perform transport op count).1.options.addresses =
      second.options.addresses := by
    rw [options, alike.addresses]
  unfold Machine.execute
  simp only [frame, report, alike.tape]
  split
  · exact ⟨⟨rfl, rfl, rfl, rfl, rfl, rfl, addresses, alike.record op _⟩, rfl⟩
  · exact ⟨⟨rfl, rfl, rfl, rfl, rfl, rfl, addresses, alike.record op _⟩, rfl⟩

/-- How many executions a step has recorded, or one if it found nothing to execute. -/
def recorded (before after : Machine σ) : Nat :=
  max 1 (after.report.total - before.report.total)

theorem one_le_recorded (before after : Machine σ) : 1 ≤ recorded before after :=
  Nat.le_max_left 1 _

theorem recorded_of_eq {before after : Machine σ} (same : after.report = before.report) :
    recorded before after = 1 := by
  rw [recorded, same, Nat.sub_self, Nat.max_eq_left (Nat.zero_le 1)]

theorem recorded_record {before after : Machine σ} {op : Opcode} {count : Nat}
    (raised : after.report = before.report.record op count) :
    recorded before after = max 1 count := by
  rw [recorded, raised, Report.total_record, Nat.add_sub_cancel_left]

theorem Alike.popped {first second : Machine σ} (alike : Alike first second) :
    first.popped = second.popped := by
  rw [Machine.popped, alike.code, Machine.popped]

/-- Behind a row the counts agree, although the numbers of steps do not. -/
theorem Alike.behindRow {first second : Machine σ} (alike : Alike first second) (op : Opcode)
    (count : Nat) :
    Alike
      { first.behindRow op count with
        report := first.report.record op (first.tape.executed op count) }
      (second.behindRow op count) where
  code := by simp only [Machine.behindRow, alike.code, alike.tape]
  tape := by simp only [Machine.behindRow, alike.tape]
  network := alike.network
  world := alike.world
  source := alike.source
  sink := alike.sink
  addresses := alike.addresses
  counts := by
    simp only [Machine.behindRow, Report.recordEach, Report.record, Report.count, alike.counts,
      alike.tape]

/--
One folded step is as many plain steps as it records executions.  All of them
but the last go on, and the last one gives the same result.
-/
def StepMatched (folded plain : Machine σ) : Prop :=
  ∃ last, Proceeds transport (recorded folded (folded.step transport).1 - 1) plain last ∧
    (last.step transport).2 = (folded.step transport).2 ∧
    Alike (folded.step transport).1 (last.step transport).1

/-- A folded step that records at most one execution is matched by one plain step. -/
theorem StepMatched.of_once {folded plain : Machine σ}
    (once : recorded folded (folded.step transport).1 = 1)
    (same : (plain.step transport).2 = (folded.step transport).2)
    (alike : Alike (folded.step transport).1 (plain.step transport).1) :
    StepMatched transport folded plain := by
  refine ⟨plain, ?_, same, alike⟩
  rw [once]
  exact .here plain

theorem Alike.step_foldable {folded plain : Machine σ} (alike : Alike folded plain)
    (on : folded.options.fold = true) (off : plain.options.fold = false)
    (inside : folded.tape.WellFormed) {op : Opcode} (foldable : op.isFoldable = true)
    (here : folded.code.bytes[folded.code.pc]? = some op.byte)
    (decoded : Opcode.decode? op.byte folded.code.extensions = some op) :
    StepMatched transport folded plain := by
  obtain ⟨count, row, stepped⟩ := step_row transport foldable on inside here decoded
  have length := (Tape.executed_bounds inside op count).1
  have several : recorded folded (folded.step transport).1 =
      folded.tape.executed op (count + 1) := by
    rw [stepped]
    exact (recorded_record rfl).trans (Nat.max_eq_right length)
  have inside' := inside
  rw [alike.code] at row decoded
  rw [alike.tape] at inside'
  obtain ⟨last, steps, ends⟩ := proceeds_row transport foldable count off inside' decoded row
  refine ⟨last, ?_, ?_, ?_⟩
  · rw [several, alike.tape]
    exact steps
  · rw [stepped, ends, rowStop, rowStop, alike.tape]
  · rw [stepped, ends]
    exact alike.behindRow op (count + 1)

theorem Alike.step_single {folded plain : Machine σ} (alike : Alike folded plain) {op : Opcode}
    (single : op.isFoldable = false)
    (here : folded.code.bytes[folded.code.pc]? = some op.byte)
    (decoded : Opcode.decode? op.byte folded.code.extensions = some op) :
    StepMatched transport folded plain := by
  have alone (options : Options) : (options.fold && op.isFoldable) = false := by
    rw [single, Bool.and_false]
  have stepped := step_of_single transport here decoded (alone _)
  rw [alike.code] at here decoded
  have stepped' := step_of_single transport here decoded (alone _)
  have ready : Alike { folded with code := folded.popped } { plain with code := plain.popped } :=
    { alike with code := alike.popped }
  have result := ready.execute transport op 1
  apply StepMatched.of_once
  · rw [stepped, execute_of_inside transport (perform_ne_outOfBounds transport _ single 1)]
    exact (recorded_record rfl).trans (Nat.max_self 1)
  · rw [stepped, stepped']
    exact result.2.symm
  · rw [stepped, stepped']
    exact result.1

theorem Alike.step {folded plain : Machine σ} (alike : Alike folded plain)
    (on : folded.options.fold = true) (off : plain.options.fold = false)
    (inside : folded.tape.WellFormed) : StepMatched transport folded plain := by
  have code := alike.code
  rcases step_cases transport folded with
    ⟨ended, finished⟩ | ⟨byte, here, unknown, stopped⟩ | ⟨op, here, decoded, _⟩
  · rw [code] at ended
    have finished' := step_of_end transport ended
    apply StepMatched.of_once
    · rw [finished]
      exact recorded_of_eq rfl
    · rw [finished, finished']
    · rw [finished, finished']
      exact alike
  · rw [code] at here unknown
    have stopped' := step_of_unknown transport here unknown
    apply StepMatched.of_once
    · rw [stopped]
      exact recorded_of_eq rfl
    · rw [stopped, stopped']
    · rw [stopped, stopped']
      exact { alike with code := alike.popped }
  · cases foldable : op.isFoldable with
    | true => exact alike.step_foldable transport on off inside foldable here decoded
    | false => exact alike.step_single transport foldable here decoded

/-- Where a folded step goes on, the plain machine proceeds to one that agrees. -/
theorem Alike.proceeds {folded plain next : Machine σ} (alike : Alike folded plain)
    (on : folded.options.fold = true) (off : plain.options.fold = false)
    (inside : folded.tape.WellFormed) (goes : folded.step transport = (next, none)) :
    ∃ behind, Proceeds transport (recorded folded next) plain behind ∧ Alike next behind ∧
      next.options.fold = true ∧ behind.options.fold = false ∧ next.tape.WellFormed := by
  obtain ⟨last, steps, same, after⟩ := alike.step transport on off inside
  have kept := step_inside transport inside
  have options := step_options transport folded
  rw [goes] at steps same after kept options
  have goes' : last.step transport = ((last.step transport).1, none) := Prod.ext rfl same
  have all := steps.trans (.single goes')
  rw [Nat.sub_add_cancel (one_le_recorded folded next)] at all
  refine ⟨_, all, after, ?_, ?_, kept⟩
  · rw [options, on]
  · rw [all.options, off]

/-- Where a folded step stops, the plain machine proceeds to a step that stops alike. -/
theorem Alike.stops {folded plain next : Machine σ} {stop : Stop} (alike : Alike folded plain)
    (on : folded.options.fold = true) (off : plain.options.fold = false)
    (inside : folded.tape.WellFormed) (stops : folded.step transport = (next, some stop)) :
    ∃ count last final, Proceeds transport count plain last ∧
      last.step transport = (final, some stop) ∧ Alike next final := by
  obtain ⟨last, steps, same, agree⟩ := alike.step transport on off inside
  rw [stops] at same agree
  exact ⟨_, last, _, steps, Prod.ext rfl same, agree⟩

/-- A plain run that stops is matched by a folded run with the same budget. -/
theorem Alike.run_of_stopped {folded plain final : Machine σ} {budget : Nat} {stop : Stop}
    (alike : Alike folded plain) (on : folded.options.fold = true)
    (off : plain.options.fold = false) (inside : folded.tape.WellFormed)
    (other : stop ≠ .budgetSpent) (ended : plain.run transport budget = (final, stop)) :
    ∃ result, folded.run transport budget = (result, stop) ∧ Alike result final := by
  -- The induction is on the plain budget; a folded step uses up at least one unit of it.
  induction budget using Nat.strongRecOn generalizing folded plain with
  | ind budget ih =>
      cases stepped : folded.step transport with
      | mk next reason =>
          cases reason with
          | none =>
              obtain ⟨behind, steps, after, on', off', inside'⟩ :=
                alike.proceeds transport on off inside stepped
              have positive := one_le_recorded folded next
              generalize recorded folded next = count at steps positive
              have enough := steps.lt_of_run ended other
              obtain ⟨rest, rfl⟩ := Nat.exists_eq_add_of_lt enough
              rw [Nat.add_assoc, steps.run] at ended
              obtain ⟨result, matched, agree⟩ :=
                ih (rest + 1) (by omega) after on' off' inside' ended
              have first : Proceeds transport 1 folded next := .single stepped
              have more := run_of_le matched other (by omega : rest + 1 ≤ count - 1 + (rest + 1))
              refine ⟨result, ?_, agree⟩
              rw [show count + rest + 1 = 1 + (count - 1 + (rest + 1)) by omega, first.run]
              exact more
          | some reason =>
              obtain ⟨count, last, final, steps, stops, agree⟩ :=
                alike.stops transport on off inside stepped
              have enough := steps.lt_of_run ended other
              rw [steps.run_stops stops enough] at ended
              cases ended
              exact ⟨next, (Proceeds.here folded).run_stops stepped (by omega), agree⟩

/-- Folded steps that all go on are matched by plain steps, which are at least as many. -/
theorem Alike.run_of_spent {folded plain final : Machine σ} {budget : Nat}
    (alike : Alike folded plain) (on : folded.options.fold = true)
    (off : plain.options.fold = false) (inside : folded.tape.WellFormed)
    (steps : Proceeds transport budget folded final) :
    ∃ longer result, budget ≤ longer ∧ Proceeds transport longer plain result ∧
      Alike final result := by
  induction steps generalizing plain with
  | here => exact ⟨0, plain, Nat.le_refl 0, .here plain, alike⟩
  | step first _ ih =>
      obtain ⟨behind, before, after, on', off', inside'⟩ :=
        alike.proceeds transport on off inside first
      obtain ⟨longer, result, le, rest, agree⟩ := ih after on' off' inside'
      refine ⟨_, result, ?_, before.trans rest, agree⟩
      rw [Nat.add_comm]
      exact Nat.add_le_add (one_le_recorded _ _) le

/-- Without folding, the total grows by one with every step. -/
theorem Proceeds.total {m last : Machine σ} {count : Nat} (steps : Proceeds transport count m last)
    (off : m.options.fold = false) (inside : m.tape.WellFormed) :
    last.report.total = m.report.total + count := by
  induction steps with
  | here => rw [Nat.add_zero]
  | @step m next last count first _ ih =>
      have options := step_options transport m
      have kept := step_inside transport inside
      have raised : next.report.total = m.report.total + 1 := by
        rcases step_cases transport m with ⟨_, finished⟩ | ⟨_, _, _, stopped⟩ | ⟨op, here, decoded, _⟩
        · rw [first] at finished
          cases finished
        · rw [first] at stopped
          cases stopped
        · have single : (m.options.fold && op.isFoldable) = false := by
            rw [off, Bool.false_and]
          have stepped := step_of_single transport here decoded single
          have report := execute_report transport { m with code := m.popped } op 1
          rw [← stepped, first, Tape.executed_one inside] at report
          rw [report, Report.total_record]
      rw [first] at options kept
      rw [ih (options ▸ off) kept, raised, Nat.add_assoc, Nat.add_comm 1 count]

theorem Alike.total {first second : Machine σ} (alike : Alike first second) :
    first.report.total = second.report.total := by
  have counts : first.report.count = second.report.count := by
    funext op
    rw [Report.count, Report.count, alike.counts]
  rw [Report.total, Report.total, counts]

/-- A folded run of which the first step records several executions outruns as many plain steps. -/
theorem Alike.not_alike {folded plain next final result : Machine σ} {count : Nat}
    (alike : Alike folded plain) (on : folded.options.fold = true)
    (off : plain.options.fold = false) (inside : folded.tape.WellFormed)
    (first : folded.step transport = (next, none)) (several : 1 < recorded folded next)
    (positive : 0 < count) (steps : Proceeds transport count folded final)
    (others : Proceeds transport count plain result) : ¬ Alike final result := by
  intro same
  cases steps with
  | here => exact absurd positive (Nat.lt_irrefl 0)
  | step first' rest =>
      rw [first] at first'
      cases first'
      obtain ⟨behind, before, after, on', off', inside'⟩ :=
        alike.proceeds transport on off inside first
      obtain ⟨longer, last, le, further, agree⟩ :=
        after.run_of_spent transport on' off' inside' rest
      have inside_plain : plain.tape.WellFormed := alike.tape ▸ inside
      have total := (before.trans further).total transport off inside_plain
      have total' := others.total transport off inside_plain
      rw [← agree.total] at total
      rw [← same.total] at total'
      omega

/-- If the plain machine goes on for ever, the machine that folds does. -/
theorem Alike.endless {folded plain : Machine σ} (alike : Alike folded plain)
    (on : folded.options.fold = true) (off : plain.options.fold = false)
    (inside : folded.tape.WellFormed)
    (endless : ∀ count, ∃ last, Proceeds transport count plain last)
    (count : Nat) : ∃ last, Proceeds transport count folded last := by
  induction count generalizing folded plain with
  | zero => exact ⟨folded, .here folded⟩
  | succ count ih =>
      cases stepped : folded.step transport with
      | mk next reason =>
          cases reason with
          | none =>
              obtain ⟨behind, before, after, on', off', inside'⟩ :=
                alike.proceeds transport on off inside stepped
              have rest (more : Nat) : ∃ last, Proceeds transport more behind last := by
                rw [← run_spent_iff, ← before.run, run_spent_iff]
                exact endless _
              obtain ⟨last, steps⟩ := ih after on' off' inside' rest
              exact ⟨last, .step stepped steps⟩
          | some reason =>
              obtain ⟨before, last, final, steps, stops, _⟩ :=
                alike.stops transport on off inside stepped
              obtain ⟨beyond, all⟩ := endless (before + 1)
              have ended := steps.run_stops stops (Nat.lt_succ_self before)
              rw [run_eq_budgetSpent_iff.mpr all] at ended
              cases ended
              exact absurd (congrArg Prod.snd stops) (step_ne_budgetSpent transport last)

/-- A machine that folds cannot be told from one that does not, except by the number of steps. -/
structure FoldingUnobserved (folded plain : Machine σ) : Prop where
  /--
  One folded step is as many plain steps as it records executions.  All of
  them but the last go on, and the last one gives the same result.
  -/
  step : StepMatched transport folded plain
  /-- Where the plain run stops within its budget, the folded run stops in the same way. -/
  run_of_stopped : ∀ budget, (plain.run transport budget).2 ≠ .budgetSpent →
    (folded.run transport budget).2 = (plain.run transport budget).2 ∧
      Alike (folded.run transport budget).1 (plain.run transport budget).1
  /--
  Where the folded run spends its budget, so many plain steps go on to where it
  ends, and they are not fewer; as far as there are budgets for so many steps,
  the plain run spends this one.
  -/
  run_of_spent : ∀ budget, (folded.run transport budget).2 = .budgetSpent →
    ∃ longer last, budget ≤ longer ∧ Proceeds transport longer plain last ∧
      Alike (folded.run transport budget).1 last ∧
      (longer ≤ largestBudget → plain.run transport longer = (last, .budgetSpent))

/-- Folding is not observed by machines that otherwise agree. -/
theorem folding_unobserved {folded plain : Machine σ} (on : folded.options.fold = true)
    (off : plain.options.fold = false) (inside : folded.tape.WellFormed)
    (alike : Alike folded plain) : FoldingUnobserved transport folded plain where
  step := alike.step transport on off inside
  run_of_stopped := by
    intro budget stopped
    obtain ⟨result, matched, agree⟩ :=
      alike.run_of_stopped transport on off inside stopped rfl
    rw [matched]
    exact ⟨rfl, agree⟩
  run_of_spent := by
    intro budget spent
    have steps := proceeds_of_spent spent
    obtain ⟨longer, result, le, proceeds, agree⟩ :=
      alike.run_of_spent transport on off inside steps
    exact ⟨longer, result, le, proceeds, agree, fun _ => run_eq_budgetSpent_iff.mpr proceeds⟩

/-- A machine about to move right once and left three times, past the first cell. -/
def beforeEdge (fold : Bool) : Machine Loopback :=
  start (.parse ((['>', '<', '<', '<', '+'] : List Char).map Char.toUInt8)) { fold } {}

theorem folding_unobserved_beforeEdge :
    (beforeEdge true).options.fold = true ∧ (beforeEdge false).options.fold = false ∧
      (beforeEdge true).tape.WellFormed ∧ Alike (beforeEdge true) (beforeEdge false) ∧
      FoldingUnobserved Loopback.transport (beforeEdge true) (beforeEdge false) := by
  have alike : Alike (beforeEdge true) (beforeEdge false) := ⟨rfl, rfl, rfl, rfl, rfl, rfl, rfl, rfl⟩
  exact ⟨rfl, rfl, Tape.blank_wellFormed, alike,
    folding_unobserved Loopback.transport rfl rfl Tape.blank_wellFormed alike⟩

/-- A machine about to run `++[+-]`. -/
def spinning (fold : Bool) : Machine Loopback :=
  start (.parse spinningText) { fold } {}

/--
No budget, up to the largest, leads without folding to where the largest one
leads with folding: the folded steps are as many as the largest budget, and the
plain steps one more.
-/
theorem folding_observed_spinning :
    (spinning true).options.fold = true ∧ (spinning false).options.fold = false ∧
      (spinning true).tape.WellFormed ∧ Alike (spinning true) (spinning false) ∧
      ((spinning true).run Loopback.transport largestBudget).2 = .budgetSpent ∧
      ¬ ∃ longer, largestBudget ≤ longer ∧ longer ≤ largestBudget ∧
        ((spinning false).run Loopback.transport longer).2 = .budgetSpent ∧
        Alike ((spinning true).run Loopback.transport largestBudget).1
          ((spinning false).run Loopback.transport longer).1 := by
  have inside : (spinning true).tape.WellFormed := Tape.blank_wellFormed
  have alike : Alike (spinning true) (spinning false) := ⟨rfl, rfl, rfl, rfl, rfl, rfl, rfl, rfl⟩
  have endless : ∀ count, ∃ last, Proceeds Loopback.transport count (spinning false) last :=
    spinningText_endless rfl rfl inside Tape.cell_blank
  have spent : ((spinning true).run Loopback.transport largestBudget).2 = .budgetSpent :=
    run_spent_iff.mpr (alike.endless Loopback.transport rfl rfl inside endless _)
  refine ⟨rfl, rfl, inside, alike, spent, ?_⟩
  rintro ⟨longer, least, most, spent', same⟩
  obtain rfl := Nat.le_antisymm most least
  have on : ((spinning true).step Loopback.transport).2 = none := by decide +kernel
  have first : (spinning true).step Loopback.transport =
      (((spinning true).step Loopback.transport).1, none) := Prod.ext rfl on
  have twice : recorded (spinning true) ((spinning true).step Loopback.transport).1 = 2 := by
    decide +kernel
  exact alike.not_alike Loopback.transport rfl rfl inside first (twice ▸ Nat.lt_succ_self 1)
    (by decide) (proceeds_of_spent spent) (proceeds_of_spent spent') same

end Machine

end TapeNet
