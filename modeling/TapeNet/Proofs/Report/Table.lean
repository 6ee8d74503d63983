import TapeNet.Proofs.Report.Lines
import TapeNet.Proofs.Report.Merge

/-!
# What a report's table tells

Below a heading with the sum of all counts and the steps, the table has one line
for each opcode that was executed, in a strict order and with the counts in one
column.  Nothing is lost: two reports with the same text are the same.
-/

namespace TapeNet

namespace Report

/-- Rows and the lines that show them, as a table has them below its heading. -/
structure Tabulates (report : Report) (rows : List Row) (lines : List String) : Prop where
  /-- An opcode has a row, with its count, exactly if it was executed. -/
  complete : ∀ row, row ∈ rows ↔ 0 < row.count ∧ row.count = report.count row.opcode
  once : (rows.map Row.opcode).Nodup
  /-- Larger counts come first, and among equals lower bytes. -/
  ordered : rows.Pairwise Row.Before
  /-- Each row has one line, and all counts end in the same column. -/
  aligned : List.Forall₂ (fun row line => row.Shows (places report.maxCount) line) rows lines

section

variable (report : Report)

/-- The lines of the table, without their line breaks. -/
def rowLines : List String :=
  report.rows.map fun row => row.spelled (report.width - row.digits.length)

theorem hasLines_table :
    Text.HasLines report.table (headline report.total report.steps :: report.rowLines) where
  joined := by
    have ended : report.rowLines.map (· ++ "\n") =
        report.rows.map fun row => row.line report.width := by
      rw [rowLines, List.map_map]
      exact List.map_congr_left fun row _ => (row.line_eq report.width).symm
    rw [table, heading_eq, List.map_cons, String.join_cons, ended]
  unbroken := by
    refine List.forall_mem_cons.mpr ⟨headline_unbroken _ _, fun line member => ?_⟩
    obtain ⟨row, _, rfl⟩ := List.mem_map.mp member
    exact row.spelled_unbroken _

theorem tabulates_rows : report.Tabulates report.rows report.rowLines where
  complete _ := mem_rows
  once := report.nodup_opcodes
  ordered := report.pairwise_rows
  aligned := by
    rw [rowLines, List.forall₂_map_right_iff, List.forall₂_same]
    intro row member
    have fits : places row.count ≤ places report.maxCount :=
      places_le_places (count_le_maxCount member)
    rw [width_eq_places member]
    exact .aligned _ (Nat.sub_add_cancel fits)

variable {report}

/-- Two tables with the same lines have the same rows. -/
theorem Tabulates.rows_unique {other : Report} {rows rows' : List Row} {lines : List String}
    (tabulates : report.Tabulates rows lines) (tabulates' : other.Tabulates rows' lines) :
    rows = rows' := by
  have injective : Relator.LeftUnique fun row line => ∃ width, Row.Shows row width line := by
    rintro row line other ⟨_, shows⟩ ⟨_, shows'⟩
    exact shows.inj shows'
  exact List.left_unique_forall₂' injective (tabulates.aligned.imp fun _ _ shows => ⟨_, shows⟩)
    (tabulates'.aligned.imp fun _ _ shows => ⟨_, shows⟩)

theorem table_injective {other : Report} (same : report.table = other.table) : report = other := by
  have divided := report.hasLines_table
  rw [same] at divided
  obtain ⟨heads, lines⟩ := List.cons.inj (divided.unique other.hasLines_table)
  have tabulates := report.tabulates_rows
  rw [lines] at tabulates
  have rows := tabulates.rows_unique other.tabulates_rows
  exact ext_count (headline_injective heads).2 (count_eq_of_rows_eq rows)

end

/-- The table of a report is laid out as its rows demand, and no other report has the same one. -/
structure Tabular (report : Report) : Prop where
  laidOut : ∃ rows lines,
    Text.HasLines report.table
        (headline (Opcode.all.map report.count).sum report.steps :: lines) ∧
      report.Tabulates rows lines
  determined : ∀ other : Report, other.table = report.table →
    other.steps = report.steps ∧ ∀ op, other.count op = report.count op

theorem table_tabular (report : Report) : report.Tabular where
  laidOut := by
    rw [← report.total_eq_sum]
    exact ⟨report.rows, report.rowLines, report.hasLines_table, report.tabulates_rows⟩
  determined other same := by
    rw [table_injective same]
    exact ⟨rfl, fun _ => rfl⟩

end Report

end TapeNet
