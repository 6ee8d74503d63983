import TapeNet.Report.Json
import TapeNet.Proofs.Json.Reading

/-!
# Reading reports

The report that a document tells, described without tokens.  A text that writes
a document is read as exactly this report, or refused if there is none.
-/

namespace TapeNet

namespace Report

open Json

/-- The counts after one more field. -/
def countStep (found : PartialCounts) (name : String) (value : Document) :
    Option PartialCounts := do
  let op ← Opcode.named? name
  let count ← value.below? countBound
  return found.put op (some count)

/-- The counts that have been read, if none is missing. -/
def completeCounts (found : PartialCounts) : Option (Opcode.Table Nat) :=
  if found.all Option.isSome then some (found.map fun count => count.getD 0) else none

/-- The counts that a document tells. -/
def countsIn (document : Document) : Option (Opcode.Table Nat) :=
  (document.foldObject countStep (.fill none)).bind completeCounts

/-- The fields of a report after one more. -/
def reportStep (found : PartialReport) (name : String) (value : Document) :
    Option PartialReport :=
  if name = stepsField then
    if found.steps.isSome then none
    else do
      let steps ← value.below? countBound
      return { found with steps := some steps }
  else if name = countsField then
    if found.counts.isSome then none
    else do
      let counts ← countsIn value
      return { found with counts := some counts }
  else
    some found

/-- The report whose fields have been read, if none is missing. -/
def complete (found : PartialReport) : Option Report := do
  let steps ← found.steps
  let counts ← found.counts
  return { steps, counts }

/-- The report that a list tells whose items behind the steps are these. -/
def reportBehind (steps : Nat) : List Document → Option Report
  | [counts] => do
    let counts ← countsIn counts
    return { steps, counts }
  | _ => none

/-- The report that a document tells. -/
def reportIn : Document → Option Report
  | .list [] => none
  | .list (steps :: items) => do
    let steps ← steps.below? countBound
    reportBehind steps items
  | document => (document.foldObject reportStep {}).bind complete

open Reader

theorem gives_countField (found : PartialCounts) (name : String) (value : Document) :
    Gives (countField found name) (.colon :: value.tokens) (countStep found name value) := by
  intro rest
  unfold countField countStep
  cases Opcode.named? name with
  | none => rfl
  | some op =>
      change (naturalBelow countBound (value.tokens ++ rest) >>= _).toOption = _
      rw [toOption_bind, gives_naturalBelow]
      cases value.below? countBound with
      | none | some => rfl

theorem gives_countsReader (document : Document) :
    Gives countsReader document.tokens (countsIn document) := by
  intro rest
  rw [countsReader, toOption_bind, gives_object gives_countField, countsIn]
  cases document.foldObject countStep (.fill none) with
  | none => rfl
  | some found =>
      rw [Option.bind_some, completeCounts]
      simp only [Option.map_some, Option.bind_some]
      split
      · rfl
      · rfl

theorem gives_reportField (found : PartialReport) (name : String) (value : Document) :
    Gives (reportField found name) (.colon :: value.tokens) (reportStep found name value) := by
  intro rest
  unfold reportField reportStep
  by_cases steps : name = stepsField
  · rw [if_pos steps, if_pos steps]
    by_cases taken : found.steps.isSome = true
    · rw [if_pos taken, if_pos taken]
      rfl
    · rw [if_neg taken, if_neg taken]
      change (naturalBelow countBound (value.tokens ++ rest) >>= _).toOption = _
      rw [toOption_bind, gives_naturalBelow]
      cases value.below? countBound with
      | none | some => rfl
  · rw [if_neg steps, if_neg steps]
    by_cases counts : name = countsField
    · rw [if_pos counts, if_pos counts]
      by_cases taken : found.counts.isSome = true
      · rw [if_pos taken, if_pos taken]
        rfl
      · rw [if_neg taken, if_neg taken]
        change (countsReader (value.tokens ++ rest) >>= _).toOption = _
        rw [toOption_bind, gives_countsReader]
        cases countsIn value with
        | none | some => rfl
    · rw [if_neg counts, if_neg counts]
      change (skip (value.tokens ++ rest) >>= _).toOption = _
      rw [toOption_bind, gives_skip]
      rfl

/-- Takes the end of a report that is a list. -/
def endReader (steps : Nat) (counts : Opcode.Table Nat) : Reader Report
  | .closeList :: rest => .ok ({ steps, counts }, rest)
  | tokens => .error (missingMark tokens)

/-- Takes the counts and the end of a report that is a list. -/
def afterSteps (steps : Nat) : Reader Report
  | .closeList :: _ => .error .mismatched
  | .comma :: tokens => countsReader tokens >>= fun found => endReader steps found.1 found.2
  | tokens => .error (missingMark tokens)

theorem listReader_eq {tokens : List Token} (filled : tokens.head? ≠ some .closeList) :
    listReader tokens =
      naturalBelow countBound tokens >>= fun found => afterSteps found.1 found.2 := by
  rw [listReader, if_neg filled]
  rfl

theorem gives_endReader (steps : Nat) (counts : Opcode.Table Nat) (items : List Document) :
    Gives (endReader steps counts) (Document.itemTokens items)
      (if items = [] then some { steps, counts } else none) := by
  intro rest
  cases items with
  | nil => rfl
  | cons item items =>
      rw [Document.itemTokens_cons]
      rfl

theorem gives_afterSteps (steps : Nat) (items : List Document) :
    Gives (afterSteps steps) (Document.itemTokens items) (reportBehind steps items) := by
  intro rest
  cases items with
  | nil => rfl
  | cons counts items =>
      rw [Document.itemTokens_cons]
      have taken := (gives_countsReader counts).bind (gives_endReader steps · items)
      refine (taken rest).trans (congrArg _ ?_)
      cases items with
      | nil => rfl
      | cons => exact Option.bind_fun_none (countsIn counts)

/-- What is taken from anything but a list. -/
theorem reader_eq {tokens : List Token} (other : tokens.head? ≠ some .openList) :
    (reader tokens).toOption =
      ((object reportField {} tokens).toOption.bind fun found =>
        (complete found.1).map (·, found.2)) := by
  unfold reader
  split
  · exact absurd rfl other
  · rw [toOption_bind]
    congr 1
    funext found
    obtain ⟨⟨steps, counts⟩, rest⟩ := found
    cases steps with
    | none => rfl
    | some steps =>
        cases counts with
        | none | some => rfl

/-- The reader takes in exactly the report that a document tells. -/
theorem gives_reader (document : Document) : Gives reader document.tokens (reportIn document) := by
  intro rest
  have fields := gives_object gives_reportField {} document rest
  cases document with
  | list items =>
      cases items with
      | nil => rfl
      | cons steps items =>
          have filled : (steps.tokens ++ (Document.itemTokens items ++ rest)).head? ≠
              some .closeList := by
            rw [Document.head_tokens]
            exact fun closed => steps.first_ne_closeList (Option.some.inj closed)
          have taken := (gives_naturalBelow countBound steps).bind (gives_afterSteps · items)
          rw [Document.tokens_list_cons, List.cons_append, List.append_assoc, reader,
            listReader_eq filled, ← List.append_assoc]
          exact taken rest
  | null | truth | number | string =>
      rw [reader_eq (by intro opened; cases opened), fields]
      rfl
  | object entries =>
      have opened : ((Document.object entries).tokens ++ rest).head? ≠ some .openList := by
        rw [Document.head_tokens]
        intro opened
        cases opened
      have told : reportIn (.object entries) =
          ((Document.object entries).foldObject reportStep {}).bind complete := rfl
      rw [reader_eq opened, fields, told]
      cases (Document.object entries).foldObject reportStep {} with
      | none | some => rfl

/-- Every text that writes a document is worth the report that the document tells. -/
theorem ofJson_toOption {document : Document} {text : String} (writes : document.Writes text) :
    (ofJson text).toOption = reportIn document :=
  (gives_reader document).whole writes

end Report

end TapeNet
