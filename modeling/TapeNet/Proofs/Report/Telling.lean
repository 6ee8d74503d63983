import TapeNet.Proofs.Report.Merge
import TapeNet.Proofs.Report.Reading

/-!
# Documents that tell a report

A document tells a report as an object with its two fields, in any order and
among any foreign ones, or as a list of the two values; the entries of the
counts may stand in any order as well.  Such a document is read as the report.
-/

namespace TapeNet

namespace Opcode

theorem named?_name (op : Opcode) : named? op.name = some op := by
  cases op <;> decide

theorem name_of_named? {text : String} {op : Opcode} (found : named? text = some op) :
    op.name = text := by
  have same := List.find?_some found
  exact eq_of_beq same

theorem name_injective {first second : Opcode} (same : first.name = second.name) :
    first = second := by
  have read := named?_name first
  rw [same, named?_name] at read
  exact (Option.some.inj read).symm

end Opcode

namespace Report

open Json Json.Document

/-- The steps and counts of a report fit into 64 bits. -/
structure Fits (report : Report) : Prop where
  steps : report.steps < countBound
  counts : ∀ op, report.count op < countBound

/-- The names of all opcodes in the order of declaration. -/
def opcodeKeys : List (Option String) :=
  Opcode.all.map fun op => some op.name

/-- A document with the counts of a report: one entry for each opcode, in any order. -/
inductive TellsCounts (report : Report) : Document → Prop where
  | entries {fields : List Field} (names : (fieldKeys fields).Perm opcodeKeys)
      (values : ∀ field ∈ fields, ∀ op : Opcode, field.1.value = some op.name →
        field.2.IsNatural (report.count op)) :
      TellsCounts report (.object fields)

/--
A document with a report: an object with its two fields and any foreign ones,
in any order, or a list of the two values.
-/
inductive Tells (report : Report) : Document → Prop where
  | object {fields : List Field} {foreign : List String}
      (names : (fieldKeys fields).Perm (some stepsField :: some countsField :: foreign.map some))
      (apart : stepsField ∉ foreign ∧ countsField ∉ foreign)
      (steps : ∀ field ∈ fields, field.1.value = some stepsField →
        field.2.IsNatural report.steps)
      (counts : ∀ field ∈ fields, field.1.value = some countsField → report.TellsCounts field.2) :
      Tells report (.object fields)
  | list {steps counts : Document} (told : steps.IsNatural report.steps)
      (counted : report.TellsCounts counts) : Tells report (.list [steps, counts])

section Accepting

variable {report : Report}

/-- Entries that hold the counts of the opcodes they name are taken one by one. -/
theorem foldFields_countStep {fields : List Field}
    (each : ∀ field ∈ fields, ∃ op : Opcode, field.1.value = some op.name ∧
      field.2.below? countBound = some (report.count op)) (found : PartialCounts) :
    ∃ done, foldFields countStep found fields = some done ∧
      ∀ op : Opcode, done.get op =
        if some op.name ∈ fieldKeys fields then some (report.count op) else found.get op := by
  induction fields generalizing found with
  | nil => exact ⟨found, rfl, fun op => (if_neg List.not_mem_nil).symm⟩
  | cons field fields ih =>
      obtain ⟨key, value⟩ := field
      obtain ⟨op, named, holds⟩ := each (key, value) List.mem_cons_self
      have stepped : countStep found op.name value =
          some (found.put op (some (report.count op))) := by
        rw [countStep, Opcode.named?_name]
        exact congrArg (Option.bind · _) holds
      obtain ⟨done, more, gets⟩ :=
        ih (fun field member => each field (List.mem_cons_of_mem _ member))
          (found.put op (some (report.count op)))
      refine ⟨done, foldFields_cons_eq_some_iff.mpr ⟨op.name, _, named, stepped, more⟩, ?_⟩
      intro other
      rw [gets other, fieldKeys_cons, named]
      by_cases same : op = other
      · rw [same, Opcode.Table.get_put_self, if_pos List.mem_cons_self, ite_self]
      · have different : some other.name ≠ some op.name := fun equal =>
          same (Opcode.name_injective (Option.some.inj equal)).symm
        rw [Opcode.Table.get_put_of_ne _ _ same]
        simp only [List.mem_cons, different, false_or]

theorem countsIn_of_tells (fits : report.Fits) {document : Document}
    (tells : report.TellsCounts document) : countsIn document = some report.counts := by
  obtain @⟨fields, names, values⟩ := tells
  have each : ∀ field ∈ fields, ∃ op : Opcode, field.1.value = some op.name ∧
      field.2.below? countBound = some (report.count op) := by
    intro field member
    have key : field.1.value ∈ opcodeKeys := names.mem_iff.mp (List.mem_map_of_mem member)
    obtain ⟨op, _, named⟩ := List.mem_map.mp key
    have small := fits.counts op
    exact ⟨op, named.symm,
      below?_of_isNatural small small (values field member op named.symm)⟩
  obtain ⟨done, taken, gets⟩ := foldFields_countStep each (.fill none)
  have full : ∀ op : Opcode, done.get op = some (report.count op) := by
    intro op
    have listed : some op.name ∈ opcodeKeys :=
      List.mem_map_of_mem (by cases op <;> decide)
    rw [gets op, if_pos (names.mem_iff.mpr listed)]
  have complete : done.all Option.isSome = true := by
    rw [Opcode.Table.all_eq_true_iff]
    intro op
    rw [full op]
    rfl
  have same : done.map (fun count => count.getD 0) = report.counts := by
    apply Opcode.Table.ext_get
    intro op
    rw [Opcode.Table.get_map, full op]
    rfl
  rw [countsIn, foldObject, taken, Option.bind_some, completeCounts, if_pos complete, same]

/-- What has been read of a report when some of its fields are still to come. -/
def before (report : Report) (fields : List Field) : PartialReport where
  steps := if some stepsField ∈ fieldKeys fields then none else some report.steps
  counts := if some countsField ∈ fieldKeys fields then none else some report.counts

/-- A key that stands once at most does not stand again. -/
theorem not_mem_of_count {known : String} {others : List (Option String)}
    (once : (some known :: others).count (some known) ≤ 1) : some known ∉ others := by
  rw [List.count_cons_self] at once
  rw [← List.count_eq_zero]
  omega

/-- A field that still was to come has been read after its step. -/
theorem reportStep_before {key : StringLiteral} {value : Document} {fields : List Field}
    {name : String} (meant : key.value = some name)
    (steps : name = stepsField → value.below? countBound = some report.steps)
    (counts : name = countsField → countsIn value = some report.counts)
    (once : (fieldKeys ((key, value) :: fields)).count (some stepsField) ≤ 1 ∧
      (fieldKeys ((key, value) :: fields)).count (some countsField) ≤ 1) :
    reportStep (report.before ((key, value) :: fields)) name value =
      some (report.before fields) := by
  rw [fieldKeys_cons, meant] at once
  have other : stepsField ≠ countsField := by decide
  unfold before
  rw [fieldKeys_cons, meant]
  by_cases isSteps : name = stepsField
  · have last : some stepsField ∉ fieldKeys fields := not_mem_of_count (isSteps ▸ once.1)
    simp [reportStep, isSteps, steps isSteps, last, other.symm]
  · by_cases isCounts : name = countsField
    · have last : some countsField ∉ fieldKeys fields := not_mem_of_count (isCounts ▸ once.2)
      simp [reportStep, isCounts, counts isCounts, last, other, other.symm]
    · have apart : stepsField ≠ name ∧ countsField ≠ name := ⟨Ne.symm isSteps, Ne.symm isCounts⟩
      simp [reportStep, isSteps, isCounts, apart]

/-- Fields that hold a report are taken one by one, in whatever order they stand. -/
theorem foldFields_reportStep {fields : List Field}
    (named : ∀ field ∈ fields, ∃ name, field.1.value = some name)
    (steps : ∀ field ∈ fields, field.1.value = some stepsField →
      field.2.below? countBound = some report.steps)
    (counts : ∀ field ∈ fields, field.1.value = some countsField →
      countsIn field.2 = some report.counts)
    (once : (fieldKeys fields).count (some stepsField) ≤ 1 ∧
      (fieldKeys fields).count (some countsField) ≤ 1) :
    foldFields reportStep (report.before fields) fields = some (report.before []) := by
  -- On the remaining fields: what has been read is all that is not among them.
  induction fields with
  | nil => rfl
  | cons field fields ih =>
      obtain ⟨key, value⟩ := field
      have here : (key, value) ∈ (key, value) :: fields := List.mem_cons_self
      obtain ⟨name, meant⟩ := named _ here
      have stepped := reportStep_before meant
        (fun same => steps _ here (same ▸ meant)) (fun same => counts _ here (same ▸ meant)) once
      have fewer (known : String) : (fieldKeys fields).count (some known) ≤
          (fieldKeys ((key, value) :: fields)).count (some known) := List.count_le_count_cons
      have more := ih (fun field later => named field (List.mem_cons_of_mem _ later))
        (fun field later => steps field (List.mem_cons_of_mem _ later))
        (fun field later => counts field (List.mem_cons_of_mem _ later))
        ⟨(fewer stepsField).trans once.1, (fewer countsField).trans once.2⟩
      exact foldFields_cons_eq_some_iff.mpr ⟨name, _, meant, stepped, more⟩

/-- Next to foreign fields each of the two known ones stands once. -/
theorem count_known {fields : List Field} {foreign : List String}
    (names : (fieldKeys fields).Perm (some stepsField :: some countsField :: foreign.map some))
    (apart : stepsField ∉ foreign ∧ countsField ∉ foreign) :
    (fieldKeys fields).count (some stepsField) = 1 ∧
      (fieldKeys fields).count (some countsField) = 1 := by
  have other : some stepsField ≠ some countsField := by decide
  have absent {known : String} (missing : known ∉ foreign) :
      (foreign.map some).count (some known) = 0 := by
    rw [List.count_eq_zero]
    intro member
    obtain ⟨name, listed, same⟩ := List.mem_map.mp member
    exact missing (Option.some.inj same ▸ listed)
  constructor
  · rw [names.count_eq, List.count_cons_self, List.count_cons_of_ne other.symm, absent apart.1]
  · rw [names.count_eq, List.count_cons_of_ne other, List.count_cons_self, absent apart.2]

/-- The report that a document is meant to tell is the one that it tells. -/
theorem reportIn_of_tells (fits : report.Fits) {document : Document}
    (tells : report.Tells document) : reportIn document = some report := by
  cases tells with
  | list told counted =>
      rw [reportIn, below?_of_isNatural fits.steps fits.steps told]
      change (countsIn _).bind _ = _
      rw [countsIn_of_tells fits counted]
      rfl
  | @object fields foreign names apart steps counts =>
      obtain ⟨stepsOnce, countsOnce⟩ := count_known names apart
      have named : ∀ field ∈ fields, ∃ name, field.1.value = some name := by
        intro field member
        have key := names.mem_iff.mp (List.mem_map_of_mem member)
        simp only [List.mem_cons, List.mem_map] at key
        rcases key with same | same | ⟨name, _, same⟩
        · exact ⟨_, same⟩
        · exact ⟨_, same⟩
        · exact ⟨name, same.symm⟩
      have fresh : report.before fields = {} := by
        have here {known : String} (once : (fieldKeys fields).count (some known) = 1) :
            some known ∈ fieldKeys fields := List.count_pos_iff.mp (by omega)
        rw [before, if_pos (here stepsOnce), if_pos (here countsOnce)]
      have taken := foldFields_reportStep named
        (fun field member same =>
          below?_of_isNatural fits.steps fits.steps (steps field member same))
        (fun field member same => countsIn_of_tells fits (counts field member same))
        ⟨stepsOnce.le, countsOnce.le⟩
      rw [fresh] at taken
      change (foldFields reportStep {} fields).bind complete = _
      rw [taken]
      rfl

end Accepting

end Report

end TapeNet
