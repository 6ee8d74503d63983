import TapeNet.Proofs.Json.Writing
import TapeNet.Proofs.Report.Defects

/-!
# Reports survive JSON

Whoever writes a report and reads it back has the same report, whether the
text is compact or indented, however it is laid out, in whatever order the
fields stand and whatever fields are added.  A text with a defect is refused.
-/

namespace TapeNet

theorem Opcode.plainText_name (op : Opcode) : Json.PlainText op.name := by
  cases op <;> decide

namespace Report

open Json Json.Document

section Writing

variable (report : Report)

theorem plainText_fields : PlainText stepsField ∧ PlainText countsField := by
  decide

/-- The entries in which the counts of a report are written. -/
def entries : List (String × Value) :=
  Opcode.all.map fun op => (op.name, .natural (report.count op))

theorem allPlain_toValue : report.toValue.AllPlain := by
  have named : Value.FieldsPlain report.entries := by
    rw [Value.fieldsPlain_iff]
    intro field member
    obtain ⟨op, _, rfl⟩ := List.mem_map.mp member
    exact ⟨op.plainText_name, trivial⟩
  exact ⟨plainText_fields.1, trivial, plainText_fields.2, named, trivial⟩

theorem tellsCounts_entries :
    report.TellsCounts (.object (Value.fieldDocuments report.entries)) := by
  rw [Value.fieldDocuments_eq_map, entries, List.map_map]
  constructor
  · apply List.Perm.of_eq
    rw [fieldKeys, List.map_map]
    exact List.map_congr_left fun op _ => StringLiteral.ofPlain_value op.plainText_name
  · intro field member op named
    obtain ⟨other, _, rfl⟩ := List.mem_map.mp member
    have meant : (StringLiteral.ofPlain other.name).value = some other.name :=
      StringLiteral.ofPlain_value other.plainText_name
    have same : other = op := Opcode.name_injective (Option.some.inj (meant.symm.trans named))
    rw [← same]
    exact isNatural_ofNat (report.count other)

/-- The document that is written for a report tells it. -/
theorem tells_document : report.Tells report.toValue.document := by
  have first : (StringLiteral.ofPlain stepsField).value = some stepsField :=
    StringLiteral.ofPlain_value plainText_fields.1
  have second : (StringLiteral.ofPlain countsField).value = some countsField :=
    StringLiteral.ofPlain_value plainText_fields.2
  have other : some stepsField ≠ some countsField := by decide
  change report.Tells (.object
    [(.ofPlain stepsField, .number (.ofNat report.steps)),
      (.ofPlain countsField, .object (Value.fieldDocuments report.entries))])
  have names : (fieldKeys [(StringLiteral.ofPlain stepsField, .number (.ofNat report.steps)),
      (.ofPlain countsField, .object (Value.fieldDocuments report.entries))]).Perm
        (some stepsField :: some countsField :: ([] : List String).map some) := by
    rw [fieldKeys, List.map_cons, List.map_cons, first, second]
    exact .refl _
  refine .object names ⟨List.not_mem_nil, List.not_mem_nil⟩ ?_ ?_
  · intro field member named
    rcases List.mem_pair.mp member with rfl | rfl
    · exact isNatural_ofNat report.steps
    · exact absurd (named.symm.trans second) other
  · intro field member named
    rcases List.mem_pair.mp member with rfl | rfl
    · exact absurd (first.symm.trans named) other
    · exact report.tellsCounts_entries

end Writing

/-- A report survives being written and read, and no defect is made up for. -/
structure RoundTrips (report : Report) : Prop where
  compact : ofJson report.json = .ok report
  pretty : ofJson report.prettyJson = .ok report
  told {document : Document} {text : String} (tells : report.Tells document)
    (writes : document.Writes text) : ofJson text = .ok report
  refused {document : Document} {text : String} (defective : Defective document)
    (writes : document.Writes text) : ∃ fault, ofJson text = .error fault

theorem ofJson_of_tells {report : Report} (fits : report.Fits) {document : Document}
    {text : String} (tells : report.Tells document) (writes : document.Writes text) :
    ofJson text = .ok report := by
  apply eq_ok_of_toOption
  rw [ofJson_toOption writes, reportIn_of_tells fits tells]

/-- Whatever numbers below 2^64 a report holds, its texts give it back. -/
theorem json_roundTrips (report : Report) (fits : report.Fits) : report.RoundTrips where
  compact := ofJson_of_tells fits report.tells_document
    (report.toValue.writes_compact report.allPlain_toValue)
  pretty := ofJson_of_tells fits report.tells_document
    (report.toValue.writes_pretty report.allPlain_toValue)
  told := ofJson_of_tells fits
  refused defective writes := by
    apply exists_error_of_toOption
    rw [ofJson_toOption writes, reportIn_of_defective defective]

/-- The report with the largest steps and counts that fit. -/
def largest : Report where
  steps := countBound - 1
  counts := .fill (countBound - 1)

theorem json_roundTrips_largest : largest.Fits ∧ largest.RoundTrips := by
  have fits : largest.Fits := by
    constructor
    · decide
    · intro op
      rw [count, largest, Opcode.Table.get_fill]
      decide
  exact ⟨fits, json_roundTrips largest fits⟩

end Report

end TapeNet
