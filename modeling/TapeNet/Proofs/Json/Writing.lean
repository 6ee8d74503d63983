import TapeNet.Json.Writer
import TapeNet.Proofs.Json.Document

/-!
# Writing documents

A value stands for a document, and both of its texts write that document: the
compact one and the indented one differ in their blanks only.
-/

namespace TapeNet

namespace Json

/-- Whether nothing in a text needs an escape. -/
def PlainText (text : String) : Prop :=
  ∀ c ∈ text.toList, IsPlain c

instance (text : String) : Decidable (PlainText text) :=
  List.decidableBAll IsPlain text.toList

theorem written_blank {text : String} (blank : Blank text.toList) : Written [] text :=
  .nil blank

theorem written_piece {lexeme : Lexeme} {text : String} (same : text.toList = lexeme.chars) :
    Written [lexeme] text := by
  rw [Written, same]
  exact Laid.lexeme lexeme

theorem written_decimal (n : Nat) : Written [.number (.ofNat n)] (Numeral.decimal n) :=
  written_piece (by
    rw [Numeral.decimal, String.toList_ofList]
    exact (NumberLiteral.chars_ofNat n).symm)

theorem written_quoted {text : String} (plain : PlainText text) :
    Written [.string (.ofPlain text)] (quoted text) :=
  written_piece (by
    rw [quoted, String.toList_append, String.toList_append]
    exact (StringLiteral.ofPlain_chars plain).symm)

theorem written_openBrace : Written [.openObject] openBrace :=
  written_piece rfl

theorem written_closeBrace : Written [.closeObject] closeBrace :=
  written_piece rfl

theorem written_comma : Written [.comma] "," :=
  written_piece rfl

theorem written_colon : Written [.colon] ":" :=
  written_piece rfl

theorem written_lineFeed : Written [] "\n" :=
  written_blank (by decide)

/-- A comma at the end of a line. -/
theorem written_commaLine : Written [.comma] ",\n" :=
  written_comma.append written_lineFeed

theorem written_colonBlank : Written [.colon] ": " := by
  have blank : Written [] " " := written_blank (by decide)
  exact written_colon.append blank

theorem written_indent (level : Nat) : Written [] (Value.indent level) := by
  apply written_blank
  intro c member
  rw [Value.indent, String.toList_ofList] at member
  rw [List.eq_of_mem_replicate member]
  rfl

namespace Document

/-- The pieces of a single field. -/
def fieldLexemes (field : Field) : List Lexeme :=
  .string field.1 :: .colon :: field.2.lexemes

/-- Each of some lines writes a field. -/
abbrev Lines (fields : List Field) (lines : List String) : Prop :=
  List.Forall₂ (fun field line => Written (fieldLexemes field) line) fields lines

/-- Lines that write fields can be joined by commas up to the end of an object. -/
theorem written_lines {separator close : String} (comma : Written [.comma] separator)
    (closed : Written [.closeObject] close) {field : Field} {fields : List Field} {line : String}
    {lines : List String} (first : Written (fieldLexemes field) line) (more : Lines fields lines) :
    Written (fieldLexemes field ++ moreFields fields)
      (String.intercalate separator (line :: lines) ++ close) := by
  induction more generalizing field line with
  | nil =>
      rw [String.intercalate_singleton]
      exact first.append closed
  | cons second more ih =>
      rw [String.intercalate_cons_cons, String.append_assoc, String.append_assoc]
      exact first.append (comma.append (ih second))

/-- An object is written by the lines of its fields, joined and put in braces. -/
theorem written_object {opening separator close : String} (opened : Written [.openObject] opening)
    (comma : Written [.comma] separator) (closed : Written [.closeObject] close) {field : Field}
    {fields : List Field} {line : String} {lines : List String}
    (each : Lines (field :: fields) (line :: lines)) :
    (object (field :: fields)).Writes
      (opening ++ (String.intercalate separator (line :: lines) ++ close)) := by
  obtain ⟨key, value⟩ := field
  obtain ⟨first, more⟩ := List.forall₂_cons.mp each
  exact opened.append (written_lines comma closed first more)

end Document

namespace Value

open Document

mutual

/-- The document that a value stands for. -/
def document : Value → Document
  | natural n => .number (.ofNat n)
  | plain text => .string (.ofPlain text)
  | object fields => .object (fieldDocuments fields)

/-- The fields of the document that an object stands for. -/
def fieldDocuments : List (String × Value) → List Field
  | [] => []
  | (name, value) :: rest => (.ofPlain name, value.document) :: fieldDocuments rest

end

mutual

/-- Whether the strings in a value are plain, as they are meant to be. -/
def AllPlain : Value → Prop
  | natural _ => True
  | plain text => PlainText text
  | object fields => FieldsPlain fields

/-- Whether the names and values of fields are plain. -/
def FieldsPlain : List (String × Value) → Prop
  | [] => True
  | (name, value) :: rest => PlainText name ∧ value.AllPlain ∧ FieldsPlain rest

end

theorem fieldDocuments_eq_map (fields : List (String × Value)) :
    fieldDocuments fields = fields.map fun field => (.ofPlain field.1, field.2.document) := by
  induction fields with
  | nil => rfl
  | cons field fields ih => rw [fieldDocuments, ih, List.map_cons]

theorem fieldsPlain_iff (fields : List (String × Value)) :
    FieldsPlain fields ↔ ∀ field ∈ fields, PlainText field.1 ∧ field.2.AllPlain := by
  induction fields with
  | nil => simp [FieldsPlain]
  | cons field fields ih => rw [FieldsPlain, ih, List.forall_mem_cons, and_assoc]

mutual

/-- The compact text of a value writes its document. -/
theorem writes_compact (value : Value) (plain : value.AllPlain) :
    value.document.Writes value.compact := by
  match value with
  | .natural n => exact written_decimal n
  | .plain text => exact written_quoted plain
  | .object [] => exact written_openBrace.append written_closeBrace
  | .object (field :: fields) =>
      rw [compact, String.append_assoc]
      exact written_object written_openBrace written_comma written_closeBrace
        (lines_compact (field :: fields) plain)

theorem lines_compact (fields : List (String × Value)) (plain : FieldsPlain fields) :
    Lines (fieldDocuments fields) (compactFields fields) := by
  match fields with
  | [] => exact .nil
  | (name, value) :: fields =>
      obtain ⟨named, valued, others⟩ := plain
      rw [fieldDocuments, compactFields, String.append_assoc]
      have line := (written_quoted named).append
        (written_colon.append (writes_compact value valued))
      exact .cons line (lines_compact fields others)

end

mutual

/-- The indented text of a value writes its document. -/
theorem writes_indented (level : Nat) (value : Value) (plain : value.AllPlain) :
    value.document.Writes (value.indented level) := by
  match value with
  | .natural n => exact written_decimal n
  | .plain text => exact written_quoted plain
  | .object [] => exact written_openBrace.append written_closeBrace
  | .object (field :: fields) =>
      rw [indented, String.append_assoc, String.append_assoc, String.append_assoc]
      · exact written_object (written_openBrace.append written_lineFeed) written_commaLine
          (written_lineFeed.append ((written_indent level).append written_closeBrace))
          (lines_indented (level + 1) (field :: fields) plain)
      · exact List.cons_ne_nil field fields

theorem lines_indented (level : Nat) (fields : List (String × Value))
    (plain : FieldsPlain fields) :
    Lines (fieldDocuments fields) (indentedFields level fields) := by
  match fields with
  | [] => exact .nil
  | (name, value) :: fields =>
      obtain ⟨named, valued, others⟩ := plain
      rw [fieldDocuments, indentedFields]
      simp only [String.append_assoc]
      have line := (written_indent level).append ((written_quoted named).append
        (written_colonBlank.append (writes_indented level value valued)))
      exact .cons line (lines_indented level fields others)

end

theorem writes_pretty (value : Value) (plain : value.AllPlain) :
    value.document.Writes value.pretty :=
  writes_indented 0 value plain

end Value

end Json

end TapeNet
