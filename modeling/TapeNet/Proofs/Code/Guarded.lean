import TapeNet.Proofs.Code.Pop

/-!
# Guarded operations on code

A guarded operation checks every index that it looks at and every difference
that it takes, and has no result where a check fails.  On well-formed code no
check fails: the guarded operations give what the plain ones give, and whatever
is done to the code, it stays well formed.
-/

namespace TapeNet

/-- The difference of two numbers, unless it falls below zero. -/
def difference? (whole part : Nat) : Option Nat :=
  if part ≤ whole then some (whole - part) else none

theorem difference?_eq {whole part : Nat} (le : part ≤ whole) :
    difference? whole part = some (whole - part) :=
  if_pos le

namespace Extensions

/-- No header name calls anything but the network extension. -/
theorem named?_eq_net {name : List UInt8} {extension : Extensions}
    (called : named? name = some extension) : extension = net := by
  unfold named? at called
  obtain ⟨entry, found, rfl⟩ := Option.map_eq_some_iff.mp called
  have member := List.mem_of_find?_eq_some found
  rw [supported, List.mem_singleton] at member
  rw [member]

theorem union_net {found : Extensions} (known : found = empty ∨ found = net) :
    found.union net = net := by
  rcases known with rfl | rfl <;> rfl

theorem readNames_eq (bytes name : List UInt8) {found : Extensions}
    (known : found = empty ∨ found = net) :
    readNames bytes name found = empty ∨ readNames bytes name found = net := by
  induction bytes generalizing name found with
  | nil => exact known
  | cons byte rest ih =>
      unfold readNames
      split
      · cases called : named? name with
        | none => exact known
        | some extension =>
            obtain rfl := named?_eq_net called
            exact ih [] (.inr (union_net known))
      · split
        · cases called : named? name with
          | none => exact known
          | some extension =>
              obtain rfl := named?_eq_net called
              exact .inr (union_net known)
        · split
          · exact ih _ known
          · exact known

/-- A header enables nothing or the network extension. -/
theorem detect_eq (source : List UInt8) : detect source = empty ∨ detect source = net := by
  unfold detect
  split
  · exact .inl rfl
  · split
    · exact readNames_eq _ [] (.inl rfl)
    · exact .inl rfl

end Extensions

namespace Code

namespace WellFormed

variable {code : Code}

theorem parse (source : List UInt8) : (Code.parse source).WellFormed where
  pc_le_size := Nat.zero_le _
  isValid := by
    intro byte member
    exact (List.mem_filter.mp (List.mem_toArray.mp member)).2
  extensions_eq := Extensions.detect_eq source

/-- Code stays well formed wherever its program counter moves up to its end. -/
theorem moved (inside : code.WellFormed) {pc : Nat} (le : pc ≤ code.size) :
    ({ code with pc } : Code).WellFormed :=
  ⟨le, inside.isValid, inside.extensions_eq⟩

end WellFormed

section Scans

variable {bytes : Array UInt8} {opening closing : UInt8}

theorem closeAfter?_le {index depth found : Nat}
    (closes : closeAfter? bytes opening closing index depth = some found) : found ≤ bytes.size := by
  fun_induction closeAfter? bytes opening closing index depth with
  | case1 index inside => cases closes; exact inside
  | case2 _ _ _ _ ih => exact ih closes
  | case3 _ _ _ _ _ ih => exact ih closes
  | case4 _ _ _ _ _ ih => exact ih closes
  | case5 => cases closes

theorem openBefore?_le {index depth found : Nat}
    (opens : openBefore? bytes opening closing index depth = some found) : found ≤ index := by
  fun_induction openBefore? bytes opening closing index depth with
  | case1 => cases opens
  | case2 index => cases opens; exact Nat.le_refl _
  | case3 _ _ _ ih => exact Nat.le_succ_of_le (ih opens)
  | case4 _ _ _ _ ih => exact Nat.le_succ_of_le (ih opens)
  | case5 _ _ _ _ ih => exact Nat.le_succ_of_le (ih opens)

theorem runEnd_le (byte : UInt8) {index : Nat} (le : index ≤ bytes.size) :
    runEnd bytes byte index ≤ bytes.size := by
  fun_induction runEnd bytes byte index with
  | case1 _ inside _ ih => exact ih inside
  | case2 => exact le
  | case3 => exact le

end Scans

namespace WellFormed

variable {code : Code}

theorem pop (inside : code.WellFormed) : code.pop.2.WellFormed := by
  unfold Code.pop
  split
  · next further => exact inside.moved further
  · exact inside

theorem jumpForward (inside : code.WellFormed) (closing : UInt8) :
    (code.jumpForward closing).2.WellFormed := by
  unfold Code.jumpForward
  split
  · exact inside
  · split
    · next found => exact inside.moved (closeAfter?_le found)
    · exact inside.moved (Nat.le_refl _)

theorem jumpBackward (inside : code.WellFormed) (opening : UInt8) :
    (code.jumpBackward opening).2.WellFormed := by
  unfold Code.jumpBackward
  split
  · exact inside
  · split
    · next found =>
        have before := Nat.le_trans (openBefore?_le found) (Nat.sub_le _ _)
        exact inside.moved (Nat.le_trans before inside.pc_le_size)
    · exact inside.moved (Nat.zero_le _)

theorem popRepeats (inside : code.WellFormed) : code.popRepeats.2.WellFormed := by
  unfold Code.popRepeats
  split
  · exact inside
  · exact inside.moved (runEnd_le _ inside.pc_le_size)

theorem rewind (inside : code.WellFormed) (count : Nat) : (code.rewind count).WellFormed :=
  inside.moved (Nat.le_trans (Nat.sub_le _ _) inside.pc_le_size)

theorem reset (inside : code.WellFormed) : code.reset.WellFormed :=
  inside.moved (Nat.zero_le _)

end WellFormed

/-! ### Checks of indices and differences -/

namespace Guarded

/-- The instruction that was popped last. -/
def lastPopped (code : Code) : Option UInt8 := do
  let index ← difference? code.pc 1
  code.bytes[index]?

/-- The search for a closing byte to the right; the outer result is missing if a check fails. -/
def closeAfter (bytes : Array UInt8) (opening closing : UInt8) (index depth : Nat) :
    Option (Option Nat) :=
  if inside : index < bytes.size then
    if bytes[index] = closing then
      if depth = 0 then
        some (some (index + 1))
      else do
        let depth ← difference? depth 1
        closeAfter bytes opening closing (index + 1) depth
    else if bytes[index] = opening then
      closeAfter bytes opening closing (index + 1) (depth + 1)
    else
      closeAfter bytes opening closing (index + 1) depth
  else
    some none
termination_by bytes.size - index

/-- The search for an opening byte to the left; the outer result is missing if a check fails. -/
def openBefore (bytes : Array UInt8) (opening closing : UInt8) :
    Nat → Nat → Option (Option Nat)
  | 0, _ => some none
  | index + 1, depth => do
    let byte ← bytes[index]?
    if byte = opening then
      if depth = 0 then
        some (some (index + 1))
      else do
        let depth ← difference? depth 1
        openBefore bytes opening closing index depth
    else if byte = closing then
      openBefore bytes opening closing index (depth + 1)
    else
      openBefore bytes opening closing index depth

def jumpForward (code : Code) (closing : UInt8) : Option (Bool × Code) :=
  if code.pc = 0 ∨ code.pc = code.bytes.size then
    some (false, code)
  else do
    let opening ← lastPopped code
    match ← closeAfter code.bytes opening closing code.pc 0 with
    | some pc => some (true, { code with pc })
    | none => some (false, { code with pc := code.bytes.size })

def jumpBackward (code : Code) (opening : UInt8) : Option (Bool × Code) :=
  if code.pc ≤ 1 then
    some (false, code)
  else do
    let closing ← lastPopped code
    let index ← difference? code.pc 1
    match ← openBefore code.bytes opening closing index 0 with
    | some pc => some (true, { code with pc })
    | none => some (false, { code with pc := 0 })

/-- Popping repetitions looks at all the code from the program counter on. -/
def popRepeats (code : Code) : Option (Nat × Code) :=
  if code.pc = 0 then
    some (0, code)
  else do
    let byte ← lastPopped code
    if code.pc ≤ code.bytes.size then
      let pc := runEnd code.bytes byte code.pc
      let repeats ← difference? pc code.pc
      some (repeats + 1, { code with pc })
    else
      none

variable {code : Code}

theorem lastPopped_eq (inside : code.WellFormed) (positive : 1 ≤ code.pc) :
    lastPopped code = some (code.bytes.getD (code.pc - 1) 0) := by
  have within : code.pc - 1 < code.bytes.size :=
    Nat.lt_of_lt_of_le (Nat.sub_one_lt_of_le positive (Nat.le_refl _)) inside.pc_le_size
  simp only [lastPopped, difference?_eq positive, Option.bind_eq_bind, Option.bind_some]
  rw [Array.getElem?_eq_getElem within, Array.getD_eq_getD_getElem?,
    Array.getElem?_eq_getElem within, Option.getD_some]

theorem closeAfter_eq (bytes : Array UInt8) (opening closing : UInt8) (index depth : Nat) :
    closeAfter bytes opening closing index depth =
      some (closeAfter? bytes opening closing index depth) := by
  fun_induction closeAfter? bytes opening closing index depth with
  | case1 index inside same =>
      rw [closeAfter, dif_pos inside, if_pos same, if_pos rfl]
  | case2 index inside same depth ih =>
      rw [closeAfter, dif_pos inside, if_pos same, if_neg (Nat.succ_ne_zero depth),
        difference?_eq (Nat.le_add_left 1 depth)]
      exact ih
  | case3 index depth inside other same ih =>
      rw [closeAfter, dif_pos inside, if_neg other, if_pos same, ih]
  | case4 index depth inside other different ih =>
      rw [closeAfter, dif_pos inside, if_neg other, if_neg different, ih]
  | case5 index depth outside =>
      rw [closeAfter, dif_neg outside]

theorem openBefore_eq (bytes : Array UInt8) (opening closing : UInt8) {index : Nat}
    (le : index ≤ bytes.size) (depth : Nat) :
    openBefore bytes opening closing index depth =
      some (openBefore? bytes opening closing index depth) := by
  have here {index : Nat} (less : index + 1 ≤ bytes.size) :
      bytes[index]? = some (bytes.getD index 0) := by
    rw [Array.getD_eq_getD_getElem?, Array.getElem?_eq_getElem less, Option.getD_some]
  fun_induction openBefore? bytes opening closing index depth with
  | case1 => rfl
  | case2 index same =>
      rw [openBefore, here le, Option.bind_eq_bind, Option.bind_some, if_pos same, if_pos rfl]
  | case3 index same depth ih =>
      rw [openBefore, here le, Option.bind_eq_bind, Option.bind_some, if_pos same,
        if_neg (Nat.succ_ne_zero depth), difference?_eq (Nat.le_add_left 1 depth)]
      exact ih (Nat.le_of_succ_le le)
  | case4 index depth other same ih =>
      rw [openBefore, here le, Option.bind_eq_bind, Option.bind_some, if_neg other, if_pos same,
        ih (Nat.le_of_succ_le le)]
  | case5 index depth other different ih =>
      rw [openBefore, here le, Option.bind_eq_bind, Option.bind_some, if_neg other,
        if_neg different, ih (Nat.le_of_succ_le le)]

theorem jumpForward_eq (inside : code.WellFormed) (closing : UInt8) :
    jumpForward code closing = some (code.jumpForward closing) := by
  unfold jumpForward Code.jumpForward
  split
  · rfl
  · next further =>
      have positive : 1 ≤ code.pc := Nat.one_le_iff_ne_zero.mpr fun zero => further (.inl zero)
      simp only [lastPopped_eq inside positive, closeAfter_eq, Option.bind_eq_bind,
        Option.bind_some]
      cases closeAfter? code.bytes (code.bytes.getD (code.pc - 1) 0) closing code.pc 0 with
      | none | some pc => rfl

theorem jumpBackward_eq (inside : code.WellFormed) (opening : UInt8) :
    jumpBackward code opening = some (code.jumpBackward opening) := by
  unfold jumpBackward Code.jumpBackward
  split
  · rfl
  · next further =>
      have positive : 1 ≤ code.pc := by omega
      have before : code.pc - 1 ≤ code.bytes.size :=
        Nat.le_trans (Nat.sub_le _ _) inside.pc_le_size
      simp only [lastPopped_eq inside positive, difference?_eq positive,
        openBefore_eq code.bytes _ _ before, Option.bind_eq_bind, Option.bind_some]
      cases openBefore? code.bytes opening (code.bytes.getD (code.pc - 1) 0) (code.pc - 1) 0 with
      | none | some pc => rfl

theorem popRepeats_eq (inside : code.WellFormed) : popRepeats code = some code.popRepeats := by
  unfold popRepeats Code.popRepeats
  split
  · rfl
  · next further =>
      have positive : 1 ≤ code.pc := Nat.one_le_iff_ne_zero.mpr further
      simp only [lastPopped_eq inside positive, difference?_eq (le_runEnd _ _ _),
        Option.bind_eq_bind, Option.bind_some]
      exact if_pos inside.pc_le_size

end Guarded

/-- What can be done with code by hand. -/
inductive Operation where
  | pop
  | jumpForward (closing : UInt8)
  | jumpBackward (opening : UInt8)
  | popRepeats
  | rewind (count : Nat)
  | reset
  /-- The code is replaced by a program that has just been read. -/
  | replace (source : List UInt8)
  deriving DecidableEq

namespace Operation

def apply : Operation → Code → Code
  | pop, code => code.pop.2
  | jumpForward closing, code => (code.jumpForward closing).2
  | jumpBackward opening, code => (code.jumpBackward opening).2
  | popRepeats, code => code.popRepeats.2
  | rewind count, code => code.rewind count
  | reset, code => code.reset
  | replace source, _ => .parse source

/-- The code after a guarded operation. -/
def guarded : Operation → Code → Option Code
  | jumpForward closing, code => (Guarded.jumpForward code closing).map Prod.snd
  | jumpBackward opening, code => (Guarded.jumpBackward code opening).map Prod.snd
  | popRepeats, code => (Guarded.popRepeats code).map Prod.snd
  | pop, code => some code.pop.2
  | rewind count, code => some (code.rewind count)
  | reset, code => some code.reset
  | replace source, _ => some (.parse source)

theorem apply_wellFormed (operation : Operation) {code : Code} (inside : code.WellFormed) :
    (operation.apply code).WellFormed := by
  cases operation with
  | pop => exact inside.pop
  | jumpForward closing => exact inside.jumpForward closing
  | jumpBackward opening => exact inside.jumpBackward opening
  | popRepeats => exact inside.popRepeats
  | rewind count => exact inside.rewind count
  | reset => exact inside.reset
  | replace source => exact .parse source

theorem guarded_eq (operation : Operation) {code : Code} (inside : code.WellFormed) :
    operation.guarded code = some (operation.apply code) := by
  cases operation with
  | jumpForward closing =>
      simp only [guarded, apply, Guarded.jumpForward_eq inside, Option.map_some]
  | jumpBackward opening =>
      simp only [guarded, apply, Guarded.jumpBackward_eq inside, Option.map_some]
  | popRepeats => simp only [guarded, apply, Guarded.popRepeats_eq inside, Option.map_some]
  | pop | rewind | reset | replace => rfl

end Operation

end Code

end TapeNet
