import TapeNet.Json.Reader
import TapeNet.Json.Writer
import TapeNet.Report

/-!
# Reports, opcodes and extensions as JSON

A report is written as an object with its steps and an object with the count
of every opcode.  It is read from such an object, with its fields in any order
and further fields ignored, or from a list of the two values.
-/

namespace TapeNet

namespace Report

def stepsField : String := "steps"

def countsField : String := "opcode_counts"

/-- Counts and steps are below this number. -/
def countBound : Nat := Nat.pow 2 64

/-- A report as a value to be written. -/
def toValue (report : Report) : Json.Value :=
  .object
    [(stepsField, .natural report.steps),
      (countsField, .object (Opcode.all.map fun op => (op.name, .natural (report.count op))))]

def json (report : Report) : String :=
  report.toValue.compact

def prettyJson (report : Report) : String :=
  report.toValue.pretty

/-- The counts that have been read. -/
abbrev PartialCounts := Opcode.Table (Option Nat)

/-- Takes the count of the opcode that a key names; a later one replaces an earlier one. -/
def countField (found : PartialCounts) (name : String) : Json.Reader PartialCounts := fun tokens =>
  match Opcode.named? name with
  | none => .error .mismatched
  | some op => do
    let ((), tokens) ← Json.Reader.colon tokens
    let (count, tokens) ← Json.Reader.naturalBelow countBound tokens
    return (found.put op (some count), tokens)

/-- Takes an object with a count for every opcode. -/
def countsReader : Json.Reader (Opcode.Table Nat) := fun tokens => do
  let (found, tokens) ← Json.Reader.object countField (.fill none) tokens
  if found.all Option.isSome then
    return (found.map fun count => count.getD 0, tokens)
  else
    throw .mismatched

/-- The fields of a report that have been read. -/
structure PartialReport where
  steps : Option Nat := none
  counts : Option (Opcode.Table Nat) := none

/-- Takes a field of a report.  Known fields must not be repeated, others are skipped. -/
def reportField (found : PartialReport) (name : String) : Json.Reader PartialReport := fun tokens =>
  if name = stepsField then
    if found.steps.isSome then .error .mismatched
    else do
      let ((), tokens) ← Json.Reader.colon tokens
      let (steps, tokens) ← Json.Reader.naturalBelow countBound tokens
      return ({ found with steps := some steps }, tokens)
  else if name = countsField then
    if found.counts.isSome then .error .mismatched
    else do
      let ((), tokens) ← Json.Reader.colon tokens
      let (counts, tokens) ← countsReader tokens
      return ({ found with counts := some counts }, tokens)
  else do
    let ((), tokens) ← Json.Reader.colon tokens
    let ((), tokens) ← Json.Reader.skip tokens
    return (found, tokens)

/-- Takes a report in the form of a list, behind its opening bracket. -/
def listReader : Json.Reader Report := fun tokens => do
  if tokens.head? = some .closeList then
    throw .mismatched
  let (steps, tokens) ← Json.Reader.naturalBelow countBound tokens
  match tokens with
  | .closeList :: _ => throw .mismatched
  | .comma :: tokens =>
    let (counts, tokens) ← countsReader tokens
    match tokens with
    | .closeList :: rest => return ({ steps, counts }, rest)
    | tokens => throw (Json.missingMark tokens)
  | tokens => throw (Json.missingMark tokens)

def reader : Json.Reader Report
  | .openList :: tokens => listReader tokens
  | tokens => do
    let (found, tokens) ← Json.Reader.object reportField {} tokens
    match found.steps, found.counts with
    | some steps, some counts => return ({ steps, counts }, tokens)
    | _, _ => throw .mismatched

def ofJson (text : String) : Except Json.Fault Report :=
  Json.Reader.whole reader text

end Report

namespace Opcode

def json (op : Opcode) : String :=
  (Json.Value.plain op.name).compact

/-- Takes an opcode by its name, which may also be the only key of an object that holds nothing. -/
def reader : Json.Reader Opcode := fun tokens =>
  match tokens with
  | [] => .error .cutShort
  | .string _ :: _ | .brokenString _ _ :: _ => do
    let (name, rest) ← Json.Reader.string tokens
    match named? name with
    | some op => return (op, rest)
    | none => throw .mismatched
  | .openObject :: tokens => do
    let (name, tokens) ← Json.Reader.string tokens
    match named? name with
    | none => throw .mismatched
    | some op =>
      let ((), tokens) ← Json.Reader.colon tokens
      let ((), tokens) ← Json.Reader.null tokens
      match tokens with
      | .closeObject :: rest => return (op, rest)
      | tokens => throw (Json.missingMark tokens)
  | _ :: _ => .error .malformed

def ofJson (text : String) : Except Json.Fault Opcode :=
  Json.Reader.whole reader text

end Opcode

namespace Extensions

/-- A set of extensions as JSON, the number that its bits make. -/
def json (enabled : Extensions) : String :=
  (Json.Value.natural enabled.bits.toNat).compact

def ofJson (text : String) : Except Json.Fault Extensions :=
  (Json.Reader.whole (Json.Reader.naturalBelow 256) text).map fun bits => ⟨UInt8.ofNat bits⟩

end Extensions

end TapeNet
