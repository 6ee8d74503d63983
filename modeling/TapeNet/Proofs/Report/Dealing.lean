import Mathlib
import TapeNet.Proofs.Report.Raising

/-!
# Records dealt out to several reports

Records can be dealt out to any number of reports, and these be merged in any
order and grouping.  What comes out depends on the records alone: it is the
report that recorded all of them.  If that report fits into 64 bits, nothing
overflows on any way to it; otherwise something does on every way.
-/

namespace TapeNet

namespace Report

/-- An opcode and how often a step executed it. -/
abbrev Entry := Opcode × Nat

/-- Records some entries. -/
def recordAll (report : Report) (entries : List Entry) : Report :=
  entries.foldl (fun report entry => report.record entry.1 entry.2) report

section

variable (report : Report)

theorem recordAll_append (entries later : List Entry) :
    report.recordAll (entries ++ later) = (report.recordAll entries).recordAll later :=
  List.foldl_append

/-- The order of two records makes no difference. -/
theorem record_comm (first second : Entry) :
    (report.record first.1 first.2).record second.1 second.2 =
      (report.record second.1 second.2).record first.1 first.2 := by
  refine ext_count rfl fun op => ?_
  simp only [count_record]
  omega

theorem recordAll_perm {first second : List Entry} (perm : first.Perm second) :
    report.recordAll first = report.recordAll second :=
  perm.foldl_eq' (fun first _ second _ report => report.record_comm first second) report

/-- What is recorded in a report can be recorded apart and added. -/
theorem recordAll_eq_add (entries : List Entry) :
    report.recordAll entries = report + blank.recordAll entries := by
  induction entries using List.reverseRecOn generalizing report with
  | nil => exact report.add_blank.symm
  | append_singleton entries entry ih =>
      rw [recordAll_append, recordAll_append, ih]
      exact (add_record report (blank.recordAll entries) entry.1 entry.2).symm

theorem blank_add : blank + report = report := by
  refine ext_count (Nat.zero_add _) fun op => ?_
  rw [count_add, count_blank, Nat.zero_add]

end

/-- The total of a sum is the sum of the totals. -/
theorem total_add (first second : Report) :
    (first + second).total = first.total + second.total := by
  rw [total_eq_sum, total_eq_sum, total_eq_sum,
    List.map_congr_left fun op _ => count_add first second op]
  exact List.sum_map_add

/-- A way to deal out records to reports and to merge these. -/
inductive Merging where
  /-- A report that is blank at first. -/
  | part (entries : List Entry)
  /-- The sum of two reports, as a new one. -/
  | sum (first second : Merging)
  /-- The first report, raised by the second one. -/
  | raised (first second : Merging)

namespace Merging

/-- All entries that are dealt out. -/
def entries : Merging → List Entry
  | part entries => entries
  | sum first second | raised first second => first.entries ++ second.entries

/-- The reports that are merged. -/
def parts : Merging → List Report
  | part entries => [blank.recordAll entries]
  | sum first second | raised first second => first.parts ++ second.parts

def result : Merging → Report
  | part entries => blank.recordAll entries
  | sum first second => first.result + second.result
  | raised first second => first.result.raise second.result

/-- The result, unless some number on the way to it does not fit into 64 bits. -/
def guarded : Merging → Option Report
  | part entries => entries.foldlM (fun report entry => Guarded.record report entry.1 entry.2) blank
  | sum first second => do Guarded.add (← first.guarded) (← second.guarded)
  | raised first second => do Guarded.raise (← first.guarded) (← second.guarded)

theorem result_eq (merging : Merging) : merging.result = blank.recordAll merging.entries := by
  induction merging with
  | part entries => rfl
  | sum first second first_eq second_eq =>
      rw [result, entries, first_eq, second_eq, recordAll_append, ← recordAll_eq_add]
  | raised first second first_eq second_eq =>
      rw [result, entries, raise_eq_add, first_eq, second_eq, recordAll_append,
        ← recordAll_eq_add]

end Merging

/-- Recording goes on exactly as long as the report fits. -/
theorem Guarded.foldlM_record {report : Report} (fits : report.Fits) (entries : List Entry) :
    entries.foldlM (fun report entry => Guarded.record report entry.1 entry.2) report =
      (report.recordAll entries).fitting := by
  induction entries generalizing report with
  | nil => exact (fitting_of_fits fits).symm
  | cons entry entries ih =>
      rw [List.foldlM_cons, Guarded.record_eq fits]
      change _ = ((report.record entry.1 entry.2).recordAll entries).fitting
      by_cases next : (report.record entry.1 entry.2).Fits
      · rw [fitting_of_fits next]
        exact ih next
      · -- Numbers never become smaller again.
        have never : ¬ ((report.record entry.1 entry.2).recordAll entries).Fits := by
          rw [recordAll_eq_add]
          exact fun all => next all.of_add.1
        rw [fitting_eq_none next, fitting_eq_none never]
        rfl

/-- A sum of reports fits only if both of them do. -/
theorem fitting_add (first second : Report) :
    (do let first ← first.fitting; let second ← second.fitting; (first + second).fitting) =
      (first + second).fitting := by
  by_cases both : first.Fits ∧ second.Fits
  · rw [fitting_of_fits both.1, fitting_of_fits both.2]
    rfl
  · rw [fitting_eq_none fun fits => both (Fits.of_add fits)]
    rcases Decidable.not_and_iff_or_not.mp both with overflows | overflows
    · rw [fitting_eq_none overflows]
      rfl
    · rw [fitting_eq_none overflows]
      cases first.fitting with
      | none | some => rfl

namespace Merging

theorem guarded_eq (merging : Merging) : merging.guarded = merging.result.fitting := by
  induction merging with
  | part entries => exact Guarded.foldlM_record fits_blank entries
  | sum first second first_eq second_eq =>
      rw [guarded, result, first_eq, second_eq, ← fitting_add]
      simp only [Guarded.add_eq]
  | raised first second first_eq second_eq =>
      rw [guarded, result, first_eq, second_eq, raise_eq_add, ← fitting_add]
      simp only [Guarded.raise_eq]

/-- What is added up by every merge is the sum over the parts. -/
theorem measure_result {measure : Report → Nat}
    (additive : ∀ first second, measure (first + second) = measure first + measure second)
    (merging : Merging) : measure merging.result = (merging.parts.map measure).sum := by
  induction merging with
  | part entries => rfl
  | sum first second first_eq second_eq =>
      rw [result, parts, additive, first_eq, second_eq, List.map_append, List.sum_append]
  | raised first second first_eq second_eq =>
      rw [result, parts, raise_eq_add, additive, first_eq, second_eq, List.map_append,
        List.sum_append]

/-- What is true of a way to deal out some entries and to merge the reports. -/
structure Accounts (merging : Merging) (entries : List Entry) : Prop where
  result : merging.result = blank.recordAll entries
  /-- Nothing overflows on the way, unless the entries do so in any case. -/
  guarded : merging.guarded =
    if (blank.recordAll entries).Fits then some (blank.recordAll entries) else none
  steps : merging.result.steps = (merging.parts.map Report.steps).sum
  total : merging.result.total = (merging.parts.map Report.total).sum
  /-- What is called a total is the sum of the counts of all opcodes. -/
  total_eq : ∀ report : Report, report.total = (Opcode.all.map report.count).sum
  /-- A blank report among the parts makes no difference. -/
  neutral : ∀ report : Report, report + blank = report ∧ blank + report = report

/-- However entries are dealt out and the reports merged, this gives the report of all entries. -/
theorem dealt_accounts (merging : Merging) {entries : List Entry}
    (dealt : merging.entries.Perm entries) : merging.Accounts entries := by
  have same : merging.result = blank.recordAll entries :=
    merging.result_eq.trans (blank.recordAll_perm dealt)
  exact {
    result := same
    guarded := same ▸ merging.guarded_eq
    steps := merging.measure_result fun _ _ => rfl
    total := merging.measure_result total_add
    total_eq := total_eq_sum
    neutral := fun report => ⟨report.add_blank, report.blank_add⟩ }

/-- Two counts that just fit together, in two of three reports. -/
def threeParts : Merging :=
  .raised (.part [(.increment, countBound - 4), (.output, 1)])
    (.sum (.part []) (.part [(.moveLeft, 2), (.increment, 3)]))

/-- The same entries in another order. -/
def fourEntries : List Entry :=
  [(.increment, 3), (.output, 1), (.increment, countBound - 4), (.moveLeft, 2)]

theorem dealt_accounts_threeParts :
    threeParts.entries.Perm fourEntries ∧ threeParts.Accounts fourEntries := by
  have dealt : threeParts.entries.Perm fourEntries := by decide
  exact ⟨dealt, dealt_accounts threeParts dealt⟩

end Merging

end Report

end TapeNet
