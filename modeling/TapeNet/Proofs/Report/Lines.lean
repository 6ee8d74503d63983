import Mathlib.Data.List.Basic
import Mathlib.Data.List.Forall2
import TapeNet.Proofs.Report.Rows

/-!
# The lines of a report's table

A text has at most one division into lines.  A number can be taken off the front
of a text if no digit stands behind it, so the heading of a table gives back the
steps of the report, and each line below it gives back its row.
-/

namespace TapeNet

namespace Text

/-- Up to a character that does not occur before, a text can be told from what follows. -/
theorem append_cons_inj {c : Char} {first second rest rest' : List Char} (free : c ∉ first)
    (free' : c ∉ second) (same : first ++ c :: rest = second ++ c :: rest') :
    first = second ∧ rest = rest' := by
  induction first generalizing second with
  | nil =>
      cases second with
      | nil => exact ⟨rfl, (List.cons.inj same).2⟩
      | cons d _ => exact absurd ((List.cons.inj same).1 ▸ List.mem_cons_self) free'
  | cons d first ih =>
      cases second with
      | nil => exact absurd ((List.cons.inj same).1 ▸ List.mem_cons_self) free
      | cons e second =>
          obtain ⟨rfl, later⟩ := List.cons.inj same
          obtain ⟨rfl, rest_eq⟩ := ih (List.not_mem_of_not_mem_cons free)
            (List.not_mem_of_not_mem_cons free') later
          exact ⟨rfl, rest_eq⟩

/-- A text consists of lines, with a line break behind every one and no other. -/
structure HasLines (text : String) (lines : List String) : Prop where
  joined : text = String.join (lines.map (· ++ "\n"))
  unbroken : ∀ line ∈ lines, '\n' ∉ line.toList

theorem HasLines.unique {text : String} {first second : List String}
    (has : HasLines text first) (has' : HasLines text second) : first = second := by
  obtain ⟨rfl, unbroken⟩ := has
  obtain ⟨joined, unbroken'⟩ := has'
  induction first generalizing second with
  | nil =>
      cases second with
      | nil => rfl
      | cons line rest => simpa using congrArg String.toList joined
  | cons line rest ih =>
      cases second with
      | nil => simpa using congrArg String.toList joined
      | cons line' rest' =>
          obtain ⟨whole, unbroken⟩ := List.forall_mem_cons.mp unbroken
          obtain ⟨whole', unbroken'⟩ := List.forall_mem_cons.mp unbroken'
          have chars := congrArg String.toList joined
          simp only [List.map_cons, String.join_cons, String.toList_append, List.append_assoc]
            at chars
          obtain ⟨same, later⟩ := append_cons_inj whole whole' chars
          rw [String.toList_injective same,
            ih unbroken (String.toList_injective later) unbroken']

end Text

namespace Numeral

/-- Different numbers have different digits. -/
theorem toDigits_injective {first second : Nat}
    (same : Nat.toDigits 10 first = Nat.toDigits 10 second) : first = second := by
  calc
    first = Nat.ofDigitChars 10 (Nat.toDigits 10 first) 0 := Nat.ofDigitChars_ten_toDigits.symm
    _ = Nat.ofDigitChars 10 (Nat.toDigits 10 second) 0 := by rw [same]
    _ = second := Nat.ofDigitChars_ten_toDigits

theorem not_mem_toDigits {c : Char} (other : c.isDigit = false) (n : Nat) :
    c ∉ Nat.toDigits 10 n := by
  intro member
  have digit := Nat.isDigit_of_mem_toDigits (by decide) (by decide) member
  exact Bool.false_ne_true (other.symm.trans digit)

/-- In front of a character that is no digit, a number can be told from what follows. -/
theorem toDigits_append_inj {first second : Nat} {c : Char} {rest rest' : List Char}
    (other : c.isDigit = false)
    (same : Nat.toDigits 10 first ++ c :: rest = Nat.toDigits 10 second ++ c :: rest') :
    first = second ∧ rest = rest' := by
  obtain ⟨digits, later⟩ := Text.append_cons_inj (not_mem_toDigits other first)
    (not_mem_toDigits other second) same
  exact ⟨toDigits_injective digits, later⟩

/-- Blanks in front of a number can be told from it. -/
theorem dropWhile_blank (padding n : Nat) (rest : List Char) :
    (List.replicate padding ' ' ++ (Nat.toDigits 10 n ++ rest)).dropWhile (· == ' ') =
      Nat.toDigits 10 n ++ rest := by
  rw [List.dropWhile_append_of_pos fun c member => by rw [List.eq_of_mem_replicate member]; rfl]
  cases digits : Nat.toDigits 10 n with
  | nil => exact absurd digits Nat.toDigits_ne_nil
  | cons c more =>
      have other : c ≠ ' ' := by
        rintro rfl
        exact not_mem_toDigits (by decide) n (digits ▸ List.mem_cons_self)
      exact List.dropWhile_cons_of_neg (by simpa using other)

end Numeral

namespace Opcode

theorem char_injective {first second : Opcode} (same : first.char = second.char) :
    first = second :=
  byte_injective (congrArg Char.toUInt8 same)

theorem not_mem_mnemonic (op : Opcode) : ' ' ∉ op.mnemonic.toList ∧ '\n' ∉ op.mnemonic.toList := by
  cases op <;> decide

end Opcode

namespace Report

/-- The line that heads a table. -/
def headline (total steps : Nat) : String :=
  "opcode counts (" ++ Numeral.decimal total ++ " total instructions in " ++
    Numeral.decimal steps ++ " steps):"

theorem heading_eq (report : Report) :
    report.heading = headline report.total report.steps ++ "\n" := by
  unfold heading headline
  generalize report.total = total
  apply String.toList_injective
  simp

theorem headline_unbroken (total steps : Nat) : '\n' ∉ (headline total steps).toList := by
  have digits := Numeral.not_mem_toDigits (c := '\n') (by decide)
  unfold headline Numeral.decimal
  simp [digits]

/-- Different numbers are headed by different lines. -/
theorem headline_injective {total steps total' steps' : Nat}
    (same : headline total steps = headline total' steps') : total = total' ∧ steps = steps' := by
  have chars := congrArg String.toList same
  unfold headline Numeral.decimal at chars
  simp only [String.toList_append, String.toList_ofList, List.append_assoc] at chars
  obtain ⟨totals, later⟩ := Numeral.toDigits_append_inj (by decide) (List.append_cancel_left chars)
  have behind : ("total instructions in ".toList ++ _ : List Char) = _ ++ _ := later
  exact ⟨totals, (Numeral.toDigits_append_inj (by decide) (List.append_cancel_left behind)).1⟩

namespace Row

/-- The line of a row without its line break, with `padding` blanks in front of the count. -/
def spelled (row : Row) (padding : Nat) : String :=
  "  " ++ String.ofList (List.replicate padding ' ' ++ row.digits) ++ " " ++
    row.opcode.mnemonic ++ " (" ++ String.singleton row.opcode.char ++ ")"

theorem line_eq (row : Row) (width : Nat) :
    row.line width = row.spelled (width - row.digits.length) ++ "\n" := by
  apply String.toList_injective
  simp [line, spelled]

theorem spelled_unbroken (row : Row) (padding : Nat) : '\n' ∉ (row.spelled padding).toList := by
  have name := row.opcode.not_mem_mnemonic.2
  have digits := Numeral.not_mem_toDigits (c := '\n') (by decide) row.count
  have char : row.opcode.char ≠ '\n' := by cases row.opcode <;> decide
  simp [spelled, Row.digits, name, digits, char.symm]

/-- A line shows a row, with its count aligned to the right in `width` places. -/
inductive Shows (row : Row) (width : Nat) : String → Prop where
  | aligned (padding : Nat) (fills : padding + places row.count = width) :
      Shows row width (row.spelled padding)

namespace Shows

variable {row other : Row} {width width' : Nat} {line : String}

/-- Behind its blanks, a line holds the count, the name of the opcode and its character. -/
theorem afterBlanks (shows : row.Shows width line) :
    line.toList.dropWhile (· == ' ') =
      Nat.toDigits 10 row.count ++ ' ' ::
        (row.opcode.mnemonic.toList ++ ' ' :: ['(', row.opcode.char, ')']) := by
  obtain ⟨padding, _⟩ := shows
  have padded := Numeral.dropWhile_blank (padding + 2) row.count
    (' ' :: (row.opcode.mnemonic.toList ++ ' ' :: ['(', row.opcode.char, ')']))
  rw [← padded]
  congr 1
  simp [spelled, digits, List.replicate_succ]

/-- A line shows one row only. -/
theorem inj (shows : row.Shows width line) (shows' : other.Shows width' line) : row = other := by
  obtain ⟨counts, labels⟩ := Numeral.toDigits_append_inj (by decide)
    (shows.afterBlanks.symm.trans shows'.afterBlanks)
  obtain ⟨_, marks⟩ := Text.append_cons_inj row.opcode.not_mem_mnemonic.1
    other.opcode.not_mem_mnemonic.1 labels
  have chars : row.opcode.char = other.opcode.char := by simpa using marks
  exact congrArg₂ Row.mk (Opcode.char_injective chars) counts

end Shows

end Row

end Report

end TapeNet
