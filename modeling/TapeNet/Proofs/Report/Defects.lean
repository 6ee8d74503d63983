import TapeNet.Proofs.Report.Telling

/-!
# Documents with a defect

A report is not made up from parts: if a field or an opcode is missing, if a
field is there twice or if an opcode is unknown, nothing has been read.
-/

namespace TapeNet

namespace Report

open Json Json.Document

/-- The part of a document that should hold the counts. -/
inductive CountsPart : Document → Document → Prop where
  | field {fields : List Field} {key : StringLiteral} {counts : Document}
      (member : (key, counts) ∈ fields) (named : key.value = some countsField) :
      CountsPart (.object fields) counts
  | item (steps counts : Document) : CountsPart (.list [steps, counts]) counts

/-- What a document can lack or have too much of in order to tell a report. -/
inductive Defective : Document → Prop where
  /-- A known field is missing; in a list the fields have no names. -/
  | missingField {document : Document} {known : String}
      (needed : known = stepsField ∨ known = countsField) (missing : some known ∉ document.keys)
      (named : ∀ items, document ≠ .list items) : Defective document
  | repeatedField {document : Document} {known : String}
      (needed : known = stepsField ∨ known = countsField)
      (repeated : 2 ≤ document.keys.count (some known)) : Defective document
  | otherLength {items : List Document} (other : items.length ≠ 2) : Defective (.list items)
  | missingOpcode {document counts : Document} (part : CountsPart document counts) {op : Opcode}
      (missing : some op.name ∉ counts.keys) : Defective document
  | unknownOpcode {document counts : Document} (part : CountsPart document counts)
      {key : Option String} (member : key ∈ counts.keys)
      (unknown : ∀ op : Opcode, key ≠ some op.name) : Defective document

section Refusing

variable {report : Report}

/-- What one field can do to the counts. -/
theorem countStep_cases {found next : PartialCounts} {name : String} {value : Document}
    (stepped : countStep found name value = some next) :
    ∃ op : Opcode, ∃ count, op.name = name ∧ next = found.put op (some count) := by
  obtain ⟨op, named, more⟩ := Option.bind_eq_some_iff.mp stepped
  obtain ⟨count, _, same⟩ := Option.bind_eq_some_iff.mp more
  exact ⟨op, count, Opcode.name_of_named? named, (Option.some.inj same).symm⟩

/-- What one field can do to a report. -/
theorem reportStep_cases {found next : PartialReport} {name : String} {value : Document}
    (stepped : reportStep found name value = some next) :
    (name = stepsField ∧ found.steps = none ∧
        ∃ steps, next = { found with steps := some steps }) ∨
      (name = countsField ∧ found.counts = none ∧
        ∃ counts, countsIn value = some counts ∧ next = { found with counts := some counts }) ∨
      (name ≠ stepsField ∧ name ≠ countsField ∧ next = found) := by
  unfold reportStep at stepped
  by_cases isSteps : name = stepsField
  · rw [if_pos isSteps] at stepped
    split at stepped
    · cases stepped
    · next fresh =>
        obtain ⟨steps, _, same⟩ := Option.bind_eq_some_iff.mp stepped
        exact .inl ⟨isSteps, Option.not_isSome_iff_eq_none.mp fresh, steps,
          (Option.some.inj same).symm⟩
  · rw [if_neg isSteps] at stepped
    by_cases isCounts : name = countsField
    · rw [if_pos isCounts] at stepped
      split at stepped
      · cases stepped
      · next fresh =>
          obtain ⟨counts, told, same⟩ := Option.bind_eq_some_iff.mp stepped
          exact .inr (.inl ⟨isCounts, Option.not_isSome_iff_eq_none.mp fresh, counts, told,
            (Option.some.inj same).symm⟩)
    · rw [if_neg isCounts] at stepped
      exact .inr (.inr ⟨isSteps, isCounts, (Option.some.inj stepped).symm⟩)

/-- How many values there are, one or none. -/
def present {α : Type} (value : Option α) : Nat :=
  value.toList.length

/-- One field adds at most the value that it is named for. -/
theorem present_reportStep {found next : PartialReport} {name : String} {value : Document}
    (stepped : reportStep found name value = some next) :
    present next.steps = present found.steps + (if name = stepsField then 1 else 0) ∧
      present next.counts = present found.counts + if name = countsField then 1 else 0 := by
  rcases reportStep_cases stepped with
    ⟨same, fresh, steps, rfl⟩ | ⟨same, fresh, counts, _, rfl⟩ | ⟨noSteps, noCounts, rfl⟩
  · have other : name ≠ countsField := same ▸ by decide
    rw [fresh, if_pos same, if_neg other]
    exact ⟨rfl, rfl⟩
  · have other : name ≠ stepsField := same ▸ by decide
    rw [fresh, if_pos same, if_neg other]
    exact ⟨rfl, rfl⟩
  · rw [if_neg noSteps, if_neg noCounts]
    exact ⟨rfl, rfl⟩

/-- What has been found in the fields from which a report has been read. -/
theorem foldFields_of_reportIn {fields : List Field}
    (told : reportIn (.object fields) = some report) :
    foldFields reportStep {} fields = some ⟨some report.steps, some report.counts⟩ := by
  obtain ⟨⟨steps, counts⟩, taken, completed⟩ := Option.bind_eq_some_iff.mp told
  obtain ⟨readSteps, rfl, more⟩ := Option.bind_eq_some_iff.mp completed
  obtain ⟨readCounts, rfl, same⟩ := Option.bind_eq_some_iff.mp more
  cases same
  exact taken

/-- An object from which a report has been read has each known field once. -/
theorem count_of_reportIn {fields : List Field} (told : reportIn (.object fields) = some report)
    {known : String} (needed : known = stepsField ∨ known = countsField) :
    (fieldKeys fields).count (some known) = 1 := by
  have taken := foldFields_of_reportIn told
  rcases needed with rfl | rfl
  · have tally := tally_foldFields (fun stepped => (present_reportStep stepped).1) taken
    exact (tally.trans (Nat.zero_add _)).symm
  · have tally := tally_foldFields (fun stepped => (present_reportStep stepped).2) taken
    exact (tally.trans (Nat.zero_add _)).symm

/-- An opcode that no entry names keeps its count, if it has one. -/
theorem get_foldFields_of_not_mem {fields : List Field} {found done : PartialCounts}
    (taken : foldFields countStep found fields = some done) {op : Opcode}
    (missing : some op.name ∉ fieldKeys fields) : done.get op = found.get op := by
  induction fields generalizing found with
  | nil =>
      cases taken
      rfl
  | cons field fields ih =>
      obtain ⟨key, value⟩ := field
      obtain ⟨name, next, named, stepped, more⟩ := foldFields_cons_eq_some_iff.mp taken
      obtain ⟨stored, count, same, rfl⟩ := countStep_cases stepped
      rw [fieldKeys_cons, named, List.mem_cons, not_or] at missing
      obtain ⟨other, others⟩ := missing
      have different : stored ≠ op := fun equal => other (by rw [← same, equal])
      rw [ih more others, Opcode.Table.get_put_of_ne _ _ different]

/-- The entries of counts that have been read name all opcodes and nothing else. -/
theorem keys_of_countsIn {document : Document} {counts : Opcode.Table Nat}
    (told : countsIn document = some counts) :
    (∀ op : Opcode, some op.name ∈ document.keys) ∧
      ∀ key ∈ document.keys, ∃ op : Opcode, key = some op.name := by
  obtain ⟨done, folded, completed⟩ := Option.bind_eq_some_iff.mp told
  cases document with
  | null | truth | number | string | list => cases folded
  | object fields =>
      have taken : foldFields countStep (.fill none) fields = some done := folded
      constructor
      · intro op
        by_contra missing
        have empty : done.get op = none := by
          rw [get_foldFields_of_not_mem taken missing, Opcode.Table.get_fill]
        unfold completeCounts at completed
        split at completed
        · next full =>
            have filled := (Opcode.Table.all_eq_true_iff _ _).mp full op
            rw [empty] at filled
            cases filled
        · cases completed
      · intro key member
        obtain ⟨⟨literal, value⟩, listed, rfl⟩ := List.mem_map.mp member
        obtain ⟨name, found, next, named, stepped⟩ := exists_step_of_mem taken listed
        obtain ⟨op, count, same, _⟩ := countStep_cases stepped
        exact ⟨op, by rw [named, same]⟩

/-- Where a report has been read, its counts have been. -/
theorem exists_countsIn {document counts : Document} (told : reportIn document = some report)
    (part : CountsPart document counts) : ∃ table, countsIn counts = some table := by
  cases part with
  | field member named =>
      obtain ⟨name, found, next, same, stepped⟩ :=
        exists_step_of_mem (foldFields_of_reportIn told) member
      have isCounts : name = countsField := Option.some.inj (same.symm.trans named)
      rcases reportStep_cases stepped with ⟨other, _⟩ | ⟨_, _, table, read, _⟩ | ⟨_, other, _⟩
      · exact absurd (isCounts.symm.trans other) (by decide)
      · exact ⟨table, read⟩
      · exact absurd isCounts other
  | item steps =>
      obtain ⟨value, _, behind⟩ := Option.bind_eq_some_iff.mp told
      obtain ⟨table, read, _⟩ := Option.bind_eq_some_iff.mp behind
      exact ⟨table, read⟩

/-- A report in the form of a list has two items. -/
theorem length_of_reportIn {items : List Document} (told : reportIn (.list items) = some report) :
    items.length = 2 := by
  match items with
  | [] => cases told
  | steps :: items =>
      obtain ⟨value, _, behind⟩ := Option.bind_eq_some_iff.mp told
      match items with
      | [] => cases behind
      | [counts] => rfl
      | _ :: _ :: _ => cases behind

/-- A report that has not been read from a list has each known field once. -/
theorem count_keys_of_reportIn {document : Document} (told : reportIn document = some report)
    (named : ∀ items, document ≠ .list items) {known : String}
    (needed : known = stepsField ∨ known = countsField) :
    document.keys.count (some known) = 1 := by
  cases document with
  | null | truth | number | string => cases told
  | list items => exact absurd rfl (named items)
  | object fields => exact count_of_reportIn told needed

/-- No report is told by a document that has a defect. -/
theorem reportIn_of_defective {document : Document} (defective : Defective document) :
    reportIn document = none := by
  rw [Option.eq_none_iff_forall_not_mem]
  intro report told
  cases defective with
  | missingField needed missing named =>
      have once := count_keys_of_reportIn told named needed
      rw [List.count_eq_zero.mpr missing] at once
      cases once
  | repeatedField needed repeated =>
      have named : ∀ items, document ≠ .list items := by
        rintro items rfl
        exact absurd repeated (Nat.not_succ_le_zero 1)
      have once := count_keys_of_reportIn told named needed
      rw [once] at repeated
      exact absurd repeated (by decide)
  | otherLength other => exact other (length_of_reportIn told)
  | missingOpcode part missing =>
      obtain ⟨table, read⟩ := exists_countsIn told part
      exact missing ((keys_of_countsIn read).1 _)
  | unknownOpcode part member unknown =>
      obtain ⟨table, read⟩ := exists_countsIn told part
      obtain ⟨op, same⟩ := (keys_of_countsIn read).2 _ member
      exact unknown op same

end Refusing

end Report

end TapeNet
