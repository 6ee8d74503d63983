import TapeNet.Proofs.Report.Rows
import TapeNet.Proofs.Report.Telling

/-!
# Raising a report by another one

A report is raised in place: its steps first, then its counts, opcode after
opcode.  This gives the sum of the two reports.  Guarded operations check that
every number stays below 2^64; they have a result exactly if the sum fits.
-/

namespace TapeNet

namespace Report

/-- Raises the count of one opcode by that of another report. -/
def raiseCount (report other : Report) (op : Opcode) : Report :=
  { report with counts := report.counts.put op (report.count op + other.count op) }

/-- Raises the steps and all counts of a report by those of another one. -/
def raise (report other : Report) : Report :=
  Opcode.all.foldl (fun report op => report.raiseCount other op)
    { report with steps := report.steps + other.steps }

section

variable (report other : Report)

theorem count_raiseCount_self (op : Opcode) :
    (report.raiseCount other op).count op = report.count op + other.count op :=
  Opcode.Table.get_put_self _ _ _

theorem count_raiseCount_of_ne {op op' : Opcode} (different : op ≠ op') :
    (report.raiseCount other op).count op' = report.count op' :=
  Opcode.Table.get_put_of_ne _ _ different

/-- The loop over some opcodes leaves the steps, and the counts of other opcodes, as they are. -/
theorem foldl_raiseCount {ops : List Opcode} (distinct : ops.Nodup) :
    (ops.foldl (fun report op => report.raiseCount other op) report).steps = report.steps ∧
      ∀ op, (ops.foldl (fun report op => report.raiseCount other op) report).count op =
        report.count op + if op ∈ ops then other.count op else 0 := by
  induction ops generalizing report with
  | nil => exact ⟨rfl, fun _ => rfl⟩
  | cons first rest ih =>
      obtain ⟨fresh, distinct⟩ := List.nodup_cons.mp distinct
      obtain ⟨steps, counts⟩ := ih (report.raiseCount other first) distinct
      refine ⟨steps, fun op => ?_⟩
      rw [List.foldl_cons, counts]
      by_cases same : first = op
      · subst same
        rw [count_raiseCount_self, if_neg fresh, if_pos List.mem_cons_self, Nat.add_zero]
      · have later : op ∈ first :: rest ↔ op ∈ rest := by simp [Ne.symm same]
        rw [count_raiseCount_of_ne report other same]
        simp only [later]

/-- A report that is raised by another one is the sum of the two. -/
theorem raise_eq_add : report.raise other = report + other := by
  obtain ⟨steps, counts⟩ := foldl_raiseCount { report with steps := report.steps + other.steps }
    other (by decide : Opcode.all.Nodup)
  refine ext_count steps fun op => ?_
  rw [count_add]
  exact (counts op).trans (by rw [if_pos op.mem_all]; rfl)

end

/-! ### Sums that fit into 64 bits -/

theorem fits_iff (report : Report) :
    report.Fits ↔ report.steps < countBound ∧ ∀ op ∈ Opcode.all, report.count op < countBound :=
  ⟨fun fits => ⟨fits.steps, fun op _ => fits.counts op⟩,
    fun both => ⟨both.1, fun op => both.2 op op.mem_all⟩⟩

instance (report : Report) : Decidable report.Fits :=
  decidable_of_iff' _ report.fits_iff

/-- A report, unless one of its numbers does not fit. -/
def fitting (report : Report) : Option Report :=
  if report.Fits then some report else none

theorem fitting_of_fits {report : Report} (fits : report.Fits) : report.fitting = some report :=
  if_pos fits

theorem fitting_eq_none {report : Report} (overflows : ¬ report.Fits) : report.fitting = none :=
  if_neg overflows

theorem count_blank (op : Opcode) : blank.count op = 0 :=
  Opcode.Table.get_fill 0 op

theorem fits_blank : blank.Fits where
  steps := by decide
  counts op := by
    rw [count_blank]
    decide

/-- The parts of a sum that fits do so as well. -/
theorem Fits.of_add {first second : Report} (fits : (first + second).Fits) :
    first.Fits ∧ second.Fits := by
  have steps : first.steps + second.steps < countBound := fits.steps
  have counts (op : Opcode) : first.count op + second.count op < countBound := by
    rw [← count_add]
    exact fits.counts op
  constructor
  · exact ⟨by omega, fun op => by have := counts op; omega⟩
  · exact ⟨by omega, fun op => by have := counts op; omega⟩

namespace Guarded

/-- The sum of two numbers, unless it does not fit. -/
def sum (first second : Nat) : Option Nat :=
  if first + second < countBound then some (first + second) else none

theorem sum_eq {first second : Nat} (fits : first + second < countBound) :
    sum first second = some (first + second) :=
  if_pos fits

theorem sum_eq_none {first second : Nat} (overflows : ¬ first + second < countBound) :
    sum first second = none :=
  if_neg overflows

def record (report : Report) (op : Opcode) (count : Nat) : Option Report := do
  let steps ← sum report.steps 1
  let count ← sum (report.count op) count
  some { steps, counts := report.counts.put op count }

def raiseCount (report other : Report) (op : Opcode) : Option Report := do
  let count ← sum (report.count op) (other.count op)
  some { report with counts := report.counts.put op count }

def raise (report other : Report) : Option Report := do
  let steps ← sum report.steps other.steps
  Opcode.all.foldlM (fun report op => raiseCount report other op) { report with steps }

/-- A guarded sum of reports raises a copy of the first one. -/
def add (first second : Report) : Option Report :=
  raise first second

theorem record_eq {report : Report} (fits : report.Fits) (op : Opcode) (count : Nat) :
    record report op count = (report.record op count).fitting := by
  have whole : (report.record op count).Fits ↔
      report.steps + 1 < countBound ∧ report.count op + count < countBound := by
    constructor
    · intro both
      exact ⟨both.steps, count_record_self report op count ▸ both.counts op⟩
    · rintro ⟨steps, counted⟩
      refine ⟨steps, fun other => ?_⟩
      by_cases same : op = other
      · rw [← same, count_record_self]
        exact counted
      · rw [count_record_of_ne report count same]
        exact fits.counts other
  unfold record
  by_cases steps : report.steps + 1 < countBound
  · rw [sum_eq steps]
    by_cases counted : report.count op + count < countBound
    · rw [sum_eq counted, fitting_of_fits (whole.mpr ⟨steps, counted⟩)]
      rfl
    · rw [sum_eq_none counted, fitting_eq_none fun fits => counted (whole.mp fits).2]
      rfl
  · rw [sum_eq_none steps, fitting_eq_none fun fits => steps (whole.mp fits).1]
    rfl

theorem foldlM_raiseCount (report other : Report) {ops : List Opcode} (distinct : ops.Nodup) :
    ops.foldlM (fun report op => raiseCount report other op) report =
      if ∀ op ∈ ops, report.count op + other.count op < countBound then
        some (ops.foldl (fun report op => report.raiseCount other op) report)
      else none := by
  induction ops generalizing report with
  | nil => rfl
  | cons first rest ih =>
      obtain ⟨fresh, distinct⟩ := List.nodup_cons.mp distinct
      -- The opcodes are distinct, so the loop meets every count as it was at first.
      have others : ∀ op ∈ rest, (report.raiseCount other first).count op = report.count op :=
        fun op member => count_raiseCount_of_ne report other fun same => fresh (same ▸ member)
      rw [List.foldlM_cons]
      by_cases fits : report.count first + other.count first < countBound
      · have raised : raiseCount report other first = some (report.raiseCount other first) := by
          rw [raiseCount, sum_eq fits]
          rfl
        have same : (∀ op ∈ rest, (report.raiseCount other first).count op + other.count op <
            countBound) ↔ ∀ op ∈ rest, report.count op + other.count op < countBound :=
          forall₂_congr fun op member => by rw [others op member]
        rw [raised, Option.bind_eq_bind, Option.bind_some, ih _ distinct]
        simp only [same, List.forall_mem_cons, fits, true_and, List.foldl_cons]
      · rw [raiseCount, sum_eq_none fits, if_neg fun all => fits (all first List.mem_cons_self)]
        rfl

/-- A report can be raised by another one exactly if their sum fits. -/
theorem raise_eq (report other : Report) : raise report other = (report + other).fitting := by
  have whole : (report + other).Fits ↔ report.steps + other.steps < countBound ∧
      ∀ op ∈ Opcode.all, report.count op + other.count op < countBound := by
    rw [fits_iff]
    simp only [count_add]
    rfl
  have loop := foldlM_raiseCount { report with steps := report.steps + other.steps } other
    (by decide : Opcode.all.Nodup)
  unfold raise
  by_cases steps : report.steps + other.steps < countBound
  · rw [sum_eq steps, Option.bind_eq_bind, Option.bind_some, loop]
    by_cases counts : ∀ op ∈ Opcode.all, report.count op + other.count op < countBound
    · rw [fitting_of_fits (whole.mpr ⟨steps, counts⟩), ← raise_eq_add]
      exact if_pos counts
    · rw [fitting_eq_none fun fits => counts (whole.mp fits).2]
      exact if_neg counts
  · rw [sum_eq_none steps, fitting_eq_none fun fits => steps (whole.mp fits).1]
    rfl

theorem add_eq (first second : Report) : add first second = (first + second).fitting :=
  raise_eq first second

end Guarded

end Report

end TapeNet
