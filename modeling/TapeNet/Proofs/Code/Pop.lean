import TapeNet.Code

/-!
# Popping instructions

Popping gives the byte at the program counter and moves behind it.  Popping
repetitions moves over a row of bytes that are all the same as the one popped
before.
-/

namespace TapeNet

namespace Code

theorem pop_eq_some_iff {code popped : Code} {byte : UInt8} :
    code.pop = (some byte, popped) ↔
      code.bytes[code.pc]? = some byte ∧ popped = { code with pc := code.pc + 1 } := by
  unfold pop
  split
  · rename_i inside
    rw [Array.getElem?_eq_getElem inside, Prod.mk.injEq]
    exact and_congr_right fun _ => eq_comm
  · rename_i outside
    rw [Array.getElem?_eq_none (Nat.le_of_not_lt outside)]
    constructor
    · intro impossible
      cases impossible
    · rintro ⟨impossible, _⟩
      cases impossible

theorem pop_eq_none_iff {code : Code} : code.pop = (none, code) ↔ code.bytes[code.pc]? = none := by
  unfold pop
  split
  · rename_i inside
    rw [Array.getElem?_eq_getElem inside]
    constructor
    · intro impossible
      cases impossible
    · intro impossible
      cases impossible
  · rename_i outside
    exact iff_of_true rfl (Array.getElem?_eq_none (Nat.le_of_not_lt outside))

theorem getD_eq {bytes : Array UInt8} {byte : UInt8} {index : Nat}
    (here : bytes[index]? = some byte) : bytes.getD index 0 = byte := by
  rw [Array.getD_eq_getD_getElem?, here, Option.getD_some]

theorem le_runEnd (bytes : Array UInt8) (byte : UInt8) (index : Nat) :
    index ≤ runEnd bytes byte index := by
  fun_induction runEnd bytes byte index with
  | case1 index _ _ ih => exact Nat.le_of_succ_le ih
  | case2 => exact Nat.le_refl _
  | case3 => exact Nat.le_refl _

/-- Up to the end of a row every byte is the same. -/
theorem getElem?_of_lt_runEnd {bytes : Array UInt8} {byte : UInt8} {index other : Nat}
    (from_start : index ≤ other) (before : other < runEnd bytes byte index) :
    bytes[other]? = some byte := by
  fun_induction runEnd bytes byte index with
  | case1 index inside same ih =>
      by_cases here : index = other
      · rw [← here, Array.getElem?_eq_getElem inside, same]
      · exact ih (by omega) before
  | case2 => omega
  | case3 => omega

/--
Behind a byte that was just popped, popping repetitions gives the length of the
row that begins with it, and moves to the end of the row.
-/
theorem popRepeats_after_pop {code : Code} {byte : UInt8} (here : code.bytes[code.pc]? = some byte) :
    ∃ count, ({ code with pc := code.pc + 1 } : Code).popRepeats =
        (count + 1, { code with pc := code.pc + (count + 1) }) ∧
      ∀ index ≤ count, code.bytes[code.pc + index]? = some byte := by
  have last : code.bytes.getD (code.pc + 1 - 1) 0 = byte := getD_eq here
  have ahead := le_runEnd code.bytes byte (code.pc + 1)
  refine ⟨runEnd code.bytes byte (code.pc + 1) - (code.pc + 1), ?_, ?_⟩
  · unfold popRepeats
    rw [if_neg (Nat.succ_ne_zero _)]
    simp only [last]
    congr 2
    omega
  · intro index within
    cases index with
    | zero => exact here
    | succ index =>
        have behind : code.pc + 1 ≤ code.pc + (index + 1) := by omega
        exact getElem?_of_lt_runEnd behind (by omega)

end Code

end TapeNet
