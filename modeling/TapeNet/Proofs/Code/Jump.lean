import TapeNet.Proofs.Code.Balance
import TapeNet.Proofs.Code.Pop

/-!
# Jumps

Where a jump ends, for any two bytes as brackets.  The search to the right and
the search to the left are one search over a list of bytes, to the left over the
bytes before the program counter read backwards.  It ends at the first closing
byte with balanced code before it.  So both jumps follow one relation between
an opening byte and the closing byte that belongs to it, and each undoes the
other.
-/

namespace TapeNet

namespace Code

/-- How many bytes stand before the byte that closes a bracket, with `depth` others opened meanwhile. -/
def search? (opening closing : UInt8) : List UInt8 → Nat → Option Nat
  | [], _ => none
  | byte :: rest, depth =>
    if byte = closing then
      match depth with
      | 0 => some 0
      | depth + 1 => (search? opening closing rest depth).map (· + 1)
    else if byte = opening then
      (search? opening closing rest (depth + 1)).map (· + 1)
    else
      (search? opening closing rest depth).map (· + 1)

section Search

variable {opening closing byte : UInt8} {depth : Nat} {bytes rest : List UInt8}

theorem search?_found : search? opening closing (closing :: rest) 0 = some 0 :=
  if_pos rfl

theorem search?_closing :
    search? opening closing (closing :: rest) (depth + 1) =
      (search? opening closing rest depth).map (· + 1) :=
  if_pos rfl

theorem search?_opening (differ : opening ≠ closing) :
    search? opening closing (opening :: rest) depth =
      (search? opening closing rest (depth + 1)).map (· + 1) := by
  rw [search?.eq_def]
  exact (if_neg differ).trans (if_pos rfl)

theorem search?_other (not_opening : byte ≠ opening) (not_closing : byte ≠ closing) :
    search? opening closing (byte :: rest) depth =
      (search? opening closing rest depth).map (· + 1) := by
  rw [search?.eq_def]
  exact (if_neg not_closing).trans (if_neg not_opening)

/-- A search passes what descends to depth zero, and ends at the closing byte behind it. -/
theorem search?_eq_some_iff {count : Nat} :
    search? opening closing bytes depth = some count ↔
      bytes[count]? = some closing ∧ Descends opening closing depth (bytes.take count) := by
  induction bytes generalizing depth count with
  | nil => simp [search?]
  | cons byte rest ih =>
      by_cases closes : byte = closing
      · obtain rfl := closes
        cases count with
        | zero =>
            cases depth with
            | zero => simp [search?_found, descends_nil_iff]
            | succ depth => simp [search?_closing, descends_nil_iff]
        | succ count =>
            rw [List.getElem?_cons_succ, List.take_succ_cons, descends_closing_iff]
            cases depth with
            | zero => simp [search?_found]
            | succ depth => simp [search?_closing, ih]
      · by_cases begins : byte = opening
        · obtain rfl := begins
          rw [search?_opening closes]
          cases count with
          | zero => simp [closes]
          | succ count =>
              rw [List.getElem?_cons_succ, List.take_succ_cons, descends_opening_iff closes, ← ih]
              simp
        · rw [search?_other begins closes]
          cases count with
          | zero => simp [closes]
          | succ count =>
              rw [List.getElem?_cons_succ, List.take_succ_cons, descends_other_iff begins closes,
                ← ih]
              simp

end Search

section Scans

variable {bytes : Array UInt8} {opening closing : UInt8}

/-- The search to the right is a search over the bytes from its index on. -/
theorem closeAfter?_eq_search (index depth : Nat) :
    closeAfter? bytes opening closing index depth =
      (search? opening closing (bytes.toList.drop index) depth).map (index + · + 1) := by
  have ahead {index : Nat} (inside : index < bytes.size) :
      bytes.toList.drop index = bytes[index] :: bytes.toList.drop (index + 1) :=
    List.drop_eq_getElem_cons inside
  have further (index : Nat) : (index + · + 1) ∘ (· + 1) = (index + 1 + · + 1) := by
    funext count
    simp only [Function.comp_apply]
    omega
  fun_induction closeAfter? bytes opening closing index depth with
  | case1 index inside same =>
      rw [ahead inside, same, search?_found]
      rfl
  | case2 index inside same depth ih =>
      rw [ahead inside, same, search?_closing, Option.map_map, further]
      exact ih
  | case3 index depth inside other same ih =>
      rw [ahead inside, same, search?_opening (same ▸ other), Option.map_map, further]
      exact ih
  | case4 index depth inside other different ih =>
      rw [ahead inside, search?_other different other, Option.map_map, further]
      exact ih
  | case5 index depth outside =>
      rw [List.drop_eq_nil_of_le (Nat.le_of_not_lt outside)]
      rfl

/-- The search to the left is one over the bytes before its index, with the brackets exchanged. -/
theorem openBefore?_eq_search {index : Nat} (le : index ≤ bytes.size) (depth : Nat) :
    openBefore? bytes opening closing index depth =
      (search? closing opening (bytes.toList.take index).reverse depth).map (index - ·) := by
  have back {index : Nat} (inside : index + 1 ≤ bytes.size) :
      (bytes.toList.take (index + 1)).reverse =
        bytes.getD index 0 :: (bytes.toList.take index).reverse := by
    have last : bytes.toList[index]? = some (bytes.getD index 0) := by
      rw [Array.getElem?_toList, Array.getD_eq_getD_getElem?, Array.getElem?_eq_getElem inside,
        Option.getD_some]
    rw [List.take_add_one, last, List.reverse_append]
    rfl
  have further (index : Nat) : (index + 1 - ·) ∘ (· + 1) = (index - ·) := by
    funext count
    simp only [Function.comp_apply]
    omega
  fun_induction openBefore? bytes opening closing index depth with
  | case1 => rfl
  | case2 index same =>
      rw [back le, same, search?_found]
      rfl
  | case3 index same depth ih =>
      rw [back le, same, search?_closing, Option.map_map, further]
      exact ih (Nat.le_of_succ_le le)
  | case4 index depth other same ih =>
      rw [back le, same, search?_opening (same ▸ other), Option.map_map, further]
      exact ih (Nat.le_of_succ_le le)
  | case5 index depth other different ih =>
      rw [back le, search?_other different other, Option.map_map, further]
      exact ih (Nat.le_of_succ_le le)

/-- The code from one index up to another. -/
def segment (bytes : Array UInt8) (first last : Nat) : List UInt8 :=
  (bytes.extract first last).toList

theorem segment_eq_take (first last : Nat) :
    segment bytes first last = (bytes.toList.drop first).take (last - first) :=
  Array.toList_extract

/-- From `index` on, the byte at `last` is the first that closes a bracket opened before. -/
structure ClosesAt (bytes : Array UInt8) (opening closing : UInt8) (index last : Nat) : Prop where
  ahead : index ≤ last
  closes : bytes[last]? = some closing
  balanced : Balanced opening closing (segment bytes index last)

/-- Before `index`, the byte at `first` is the last that opens a bracket closed behind. -/
structure OpensAt (bytes : Array UInt8) (opening closing : UInt8) (index first : Nat) : Prop where
  before : first < index
  opens : bytes[first]? = some opening
  balanced : Balanced opening closing (segment bytes (first + 1) index)

/-- A search over the code from an index on ends at the byte that closes a bracket opened before. -/
theorem search?_eq_some_iff_closesAt {index count : Nat} :
    search? opening closing (bytes.toList.drop index) 0 = some count ↔
      ClosesAt bytes opening closing index (index + count) := by
  have passed : segment bytes index (index + count) = (bytes.toList.drop index).take count := by
    rw [segment_eq_take, Nat.add_sub_cancel_left]
  have here : (bytes.toList.drop index)[count]? = bytes[index + count]? := by
    rw [List.getElem?_drop, Array.getElem?_toList]
  rw [search?_eq_some_iff, here, descends_zero_iff, ← passed]
  constructor
  · rintro ⟨closes, balanced⟩
    exact ⟨Nat.le_add_right _ _, closes, balanced⟩
  · rintro ⟨_, closes, balanced⟩
    exact ⟨closes, balanced⟩

theorem closeAfter?_eq_some_iff {index found : Nat} :
    closeAfter? bytes opening closing index 0 = some found ↔
      ∃ last, found = last + 1 ∧ ClosesAt bytes opening closing index last := by
  rw [closeAfter?_eq_search, Option.map_eq_some_iff]
  constructor
  · rintro ⟨count, ends, rfl⟩
    exact ⟨index + count, rfl, search?_eq_some_iff_closesAt.mp ends⟩
  · rintro ⟨last, rfl, closes⟩
    have place : index + (last - index) = last := Nat.add_sub_cancel' closes.ahead
    refine ⟨last - index, search?_eq_some_iff_closesAt.mpr ?_, congrArg (· + 1) place⟩
    rw [place]
    exact closes

theorem openBefore?_eq_some_iff {index found : Nat} (le : index ≤ bytes.size) :
    openBefore? bytes opening closing index 0 = some found ↔
      ∃ first, found = first + 1 ∧ OpensAt bytes opening closing index first := by
  have length : (bytes.toList.take index).length = index := by
    rw [List.length_take, Array.length_toList]
    exact Nat.min_eq_left le
  -- What the search passes, read backwards, is the code behind the byte that it finds.
  have passed {count first : Nat} (place : index - count = first + 1) :
      (bytes.toList.take index).reverse.take count = (segment bytes (first + 1) index).reverse := by
    rw [List.take_reverse, length, place, List.drop_take, segment_eq_take]
  have found_at {count first : Nat} (place : index - count = first + 1) :
      (bytes.toList.take index).reverse[count]? = bytes[first]? := by
    rw [List.getElem?_reverse (by omega), length, List.getElem?_take_of_lt (by omega),
      Array.getElem?_toList]
    congr 1
    omega
  rw [openBefore?_eq_search le, Option.map_eq_some_iff]
  constructor
  · rintro ⟨count, ends, rfl⟩
    obtain ⟨here, descends⟩ := search?_eq_some_iff.mp ends
    have less : count < index := by
      have inside := (List.getElem?_eq_some_iff.mp here).1
      rwa [List.length_reverse, length] at inside
    have place : index - count = (index - count - 1) + 1 := by omega
    rw [found_at place] at here
    rw [passed place] at descends
    refine ⟨index - count - 1, place, by omega, here, ?_⟩
    exact balanced_reverse_iff.mp (descends_zero_iff.mp descends)
  · rintro ⟨first, rfl, before, here, balanced⟩
    have place : index - (index - (first + 1)) = first + 1 := by omega
    refine ⟨index - (first + 1), search?_eq_some_iff.mpr ⟨?_, ?_⟩, place⟩
    · rw [found_at place]
      exact here
    · rw [passed place]
      exact descends_zero_iff.mpr balanced.reverse

/-- Only one byte closes a bracket. -/
theorem ClosesAt.unique {index last other : Nat} (closes : ClosesAt bytes opening closing index last)
    (closes' : ClosesAt bytes opening closing index other) : last = other := by
  have found := closeAfter?_eq_some_iff.mpr ⟨last, rfl, closes⟩
  have found' := closeAfter?_eq_some_iff.mpr ⟨other, rfl, closes'⟩
  rw [found] at found'
  exact Nat.succ.inj (Option.some.inj found')

/-- Only one byte opens a bracket. -/
theorem OpensAt.unique {index first other : Nat} (le : index ≤ bytes.size)
    (opens : OpensAt bytes opening closing index first)
    (opens' : OpensAt bytes opening closing index other) : first = other := by
  have found := (openBefore?_eq_some_iff le).mpr ⟨first, rfl, opens⟩
  have found' := (openBefore?_eq_some_iff le).mpr ⟨other, rfl, opens'⟩
  rw [found] at found'
  exact Nat.succ.inj (Option.some.inj found')

/-- A byte closes the bracket that another one opens if that one opens what it closes. -/
theorem closesAt_iff_opensAt {first last : Nat} (opens : bytes[first]? = some opening)
    (closes : bytes[last]? = some closing) :
    ClosesAt bytes opening closing (first + 1) last ↔ OpensAt bytes opening closing last first :=
  ⟨fun ends => ⟨ends.ahead, opens, ends.balanced⟩,
    fun begins => ⟨begins.before, closes, begins.balanced⟩⟩

theorem segment_append {first inner last : Nat} (after : first ≤ inner) (before : inner ≤ last) :
    segment bytes first last = segment bytes first inner ++ segment bytes inner last := by
  unfold segment
  rw [← Array.toList_append, Array.extract_append_extract, Nat.min_eq_left after,
    Nat.max_eq_right before]

theorem segment_cons {byte : UInt8} {first last : Nat} (here : bytes[first]? = some byte)
    (before : first < last) :
    segment bytes first last = byte :: segment bytes (first + 1) last := by
  obtain ⟨inside, rfl⟩ := Array.getElem?_eq_some_iff.mp here
  obtain ⟨count, rfl⟩ := Nat.exists_eq_add_of_lt before
  rw [segment_eq_take, segment_eq_take, List.drop_eq_getElem_cons inside,
    show first + count + 1 - first = count + 1 by omega,
    show first + count + 1 - (first + 1) = count by omega, List.take_succ_cons]
  rfl

theorem segment_isPrefix {first last farther : Nat} (le : last ≤ farther) :
    segment bytes first last <+: segment bytes first farther := by
  rw [segment_eq_take, segment_eq_take]
  exact List.take_prefix_take_left (Nat.sub_le_sub_right le first)

/-- A bracket that opens inside another one is closed inside it. -/
theorem ClosesAt.inner_lt (differ : opening ≠ closing) {first inner last inner_last : Nat}
    (outer : ClosesAt bytes opening closing (first + 1) last)
    (opens : bytes[inner]? = some opening)
    (closes : ClosesAt bytes opening closing (inner + 1) inner_last)
    (after : first < inner) (before : inner < last) : inner_last < last := by
  apply Nat.lt_of_not_le
  intro crosses
  have whole := descends_zero_iff.mpr outer.balanced
  have split : segment bytes (first + 1) last =
      segment bytes (first + 1) inner ++ segment bytes inner last :=
    segment_append after (Nat.le_of_lt before)
  rw [segment_cons opens before] at split
  -- Up to the inner bracket nothing is closed too much, and neither is behind it.
  have front := whole.beginnings (segment bytes (first + 1) inner) (segment_isPrefix (by omega))
  have back := (descends_zero_iff.mpr closes.balanced).beginnings
    (segment bytes (inner + 1) last) (segment_isPrefix crosses)
  have total := whole.total
  rw [split, List.count_append, List.count_cons_of_ne differ, opens_append,
    opens_cons_opening differ] at total
  omega

end Scans

section Jumps

variable {code : Code} {opening closing : UInt8}

theorem jumpForward_of_found (popped : code.bytes[code.pc - 1]? = some opening)
    (positive : code.pc ≠ 0) {pc : Nat}
    (found : closeAfter? code.bytes opening closing code.pc 0 = some pc) :
    code.jumpForward closing = (true, { code with pc }) := by
  have inner : ¬ (code.pc = 0 ∨ code.pc = code.bytes.size) := by
    rintro (zero | ended)
    · exact positive zero
    · rw [closeAfter?.eq_def, dif_neg (by omega)] at found
      cases found
  simp only [jumpForward, if_neg inner, getD_eq popped, found]

theorem jumpForward_of_missing (popped : code.bytes[code.pc - 1]? = some opening)
    (positive : code.pc ≠ 0) (missing : closeAfter? code.bytes opening closing code.pc 0 = none) :
    code.jumpForward closing = (false, { code with pc := code.size }) := by
  by_cases ended : code.pc = code.bytes.size
  · rw [jumpForward, if_pos (.inr ended), size, ← ended]
  · have inner : ¬ (code.pc = 0 ∨ code.pc = code.bytes.size) := not_or.mpr ⟨positive, ended⟩
    simp only [jumpForward, if_neg inner, getD_eq popped, missing, size]

/-- A jump to the right that succeeds ends behind the byte that closes the popped bracket. -/
theorem jumpForward_eq_true_iff (code : Code) (popped : code.bytes[code.pc - 1]? = some opening)
    (positive : code.pc ≠ 0) {pc : Nat} :
    code.jumpForward closing = (true, { code with pc }) ↔
      ∃ last, pc = last + 1 ∧ ClosesAt code.bytes opening closing code.pc last := by
  rw [← closeAfter?_eq_some_iff]
  cases result : closeAfter? code.bytes opening closing code.pc 0 with
  | none => simp [jumpForward_of_missing popped positive result]
  | some found => simp [jumpForward_of_found popped positive result]

/-- A jump to the right that fails ends behind the code. -/
theorem jumpForward_eq_false_iff (code : Code) (popped : code.bytes[code.pc - 1]? = some opening)
    (positive : code.pc ≠ 0) :
    code.jumpForward closing = (false, { code with pc := code.size }) ↔
      ¬ ∃ last, ClosesAt code.bytes opening closing code.pc last := by
  cases result : closeAfter? code.bytes opening closing code.pc 0 with
  | none =>
      rw [jumpForward_of_missing popped positive result]
      refine iff_of_true rfl ?_
      rintro ⟨last, closes⟩
      rw [closeAfter?_eq_some_iff.mpr ⟨last, rfl, closes⟩] at result
      cases result
  | some found =>
      obtain ⟨last, _, closes⟩ := closeAfter?_eq_some_iff.mp result
      rw [jumpForward_of_found popped positive result]
      refine iff_of_false ?_ (fun missing => missing ⟨last, closes⟩)
      intro same
      cases congrArg Prod.fst same

theorem jumpBackward_of_found (popped : code.bytes[code.pc - 1]? = some closing) {pc : Nat}
    (found : openBefore? code.bytes opening closing (code.pc - 1) 0 = some pc) :
    code.jumpBackward opening = (true, { code with pc }) := by
  have inner : ¬ code.pc ≤ 1 := by
    intro early
    rw [Nat.sub_eq_zero_of_le early, openBefore?] at found
    cases found
  simp only [jumpBackward, if_neg inner, getD_eq popped, found]

theorem jumpBackward_of_missing (popped : code.bytes[code.pc - 1]? = some closing)
    (inner : ¬ code.pc ≤ 1)
    (missing : openBefore? code.bytes opening closing (code.pc - 1) 0 = none) :
    code.jumpBackward opening = (false, { code with pc := 0 }) := by
  simp only [jumpBackward, if_neg inner, getD_eq popped, missing]

theorem le_size_of_popped {byte : UInt8} (popped : code.bytes[code.pc - 1]? = some byte) :
    code.pc - 1 ≤ code.bytes.size :=
  Nat.le_of_lt (Array.getElem?_eq_some_iff.mp popped).1

/-- A jump to the left that succeeds ends behind the byte that opens the popped bracket. -/
theorem jumpBackward_eq_true_iff (code : Code)
    (popped : code.bytes[code.pc - 1]? = some closing) {pc : Nat} :
    code.jumpBackward opening = (true, { code with pc }) ↔
      ∃ first, pc = first + 1 ∧ OpensAt code.bytes opening closing (code.pc - 1) first := by
  rw [← openBefore?_eq_some_iff (le_size_of_popped popped)]
  cases result : openBefore? code.bytes opening closing (code.pc - 1) 0 with
  | none =>
      by_cases early : code.pc ≤ 1
      · simp [jumpBackward, early]
      · simp [jumpBackward_of_missing popped early result]
  | some found => simp [jumpBackward_of_found popped result]

/-- Behind the first instruction, a jump to the left that fails ends before it. -/
theorem jumpBackward_eq_false_iff (code : Code) (popped : code.bytes[code.pc - 1]? = some closing)
    (inner : ¬ code.pc ≤ 1) :
    code.jumpBackward opening = (false, { code with pc := 0 }) ↔
      ¬ ∃ first, OpensAt code.bytes opening closing (code.pc - 1) first := by
  have exact_iff {pc : Nat} : openBefore? code.bytes opening closing (code.pc - 1) 0 = some pc ↔
      ∃ first, pc = first + 1 ∧ OpensAt code.bytes opening closing (code.pc - 1) first :=
    openBefore?_eq_some_iff (le_size_of_popped popped)
  cases result : openBefore? code.bytes opening closing (code.pc - 1) 0 with
  | none =>
      rw [jumpBackward_of_missing popped inner result]
      refine iff_of_true rfl ?_
      rintro ⟨first, opens⟩
      rw [exact_iff.mpr ⟨first, rfl, opens⟩] at result
      cases result
  | some found =>
      obtain ⟨first, _, opens⟩ := exact_iff.mp result
      rw [jumpBackward_of_found popped result]
      refine iff_of_false ?_ (fun missing => missing ⟨first, opens⟩)
      intro same
      cases congrArg Prod.fst same

/--
A jump ends behind the only index that is its goal; if there is none, it fails
and ends at `missed`.
-/
structure Decided (code : Code) (jump : Bool × Code) (goal : Nat → Prop) (missed : Nat) : Prop where
  succeeds_iff : ∀ index, jump = (true, { code with pc := index + 1 }) ↔ goal index
  unique : ∀ index other, goal index → goal other → index = other
  fails_iff : jump = (false, { code with pc := missed }) ↔ ¬ ∃ index, goal index

theorem jumpForward_decided (popped : code.bytes[code.pc - 1]? = some opening)
    (positive : code.pc ≠ 0) :
    Decided code (code.jumpForward closing) (ClosesAt code.bytes opening closing code.pc)
      code.size where
  succeeds_iff last := by
    rw [jumpForward_eq_true_iff code popped positive]
    exact ⟨fun ⟨_, same, closes⟩ => Nat.succ.inj same ▸ closes, fun closes => ⟨last, rfl, closes⟩⟩
  unique _ _ closes closes' := closes.unique closes'
  fails_iff := jumpForward_eq_false_iff code popped positive

theorem jumpBackward_decided (popped : code.bytes[code.pc - 1]? = some closing)
    (inner : ¬ code.pc ≤ 1) :
    Decided code (code.jumpBackward opening) (OpensAt code.bytes opening closing (code.pc - 1))
      0 where
  succeeds_iff first := by
    rw [jumpBackward_eq_true_iff code popped]
    exact ⟨fun ⟨_, same, opens⟩ => Nat.succ.inj same ▸ opens, fun opens => ⟨first, rfl, opens⟩⟩
  unique _ _ opens opens' := opens.unique (le_size_of_popped popped) opens'
  fails_iff := jumpBackward_eq_false_iff code popped inner

/-- A jump to the right moves the program counter and nothing else. -/
theorem jumpForward_kept (code : Code) (closing : UInt8) :
    (code.jumpForward closing).2 = { code with pc := (code.jumpForward closing).2.pc } := by
  unfold jumpForward
  split
  · rfl
  · split <;> rfl

/-- A jump to the left moves the program counter and nothing else. -/
theorem jumpBackward_kept (code : Code) (opening : UInt8) :
    (code.jumpBackward opening).2 = { code with pc := (code.jumpBackward opening).2.pc } := by
  unfold jumpBackward
  split
  · rfl
  · split <;> rfl

/-- What both jumps do with any byte as the bracket that they look for. -/
structure JumpsExact (code : Code) (byte : UInt8) : Prop where
  /-- Before the first instruction and behind the last one, nothing moves to the right. -/
  forward_still : code.pc = 0 ∨ code.pc = code.size → code.jumpForward byte = (false, code)
  forward : code.pc ≠ 0 → code.pc ≠ code.size →
    ∃ opening, code.bytes[code.pc - 1]? = some opening ∧
      Decided code (code.jumpForward byte) (ClosesAt code.bytes opening byte code.pc) code.size
  /-- With at most one instruction popped, nothing moves to the left. -/
  backward_still : code.pc ≤ 1 → code.jumpBackward byte = (false, code)
  backward : ¬ code.pc ≤ 1 →
    ∃ closing, code.bytes[code.pc - 1]? = some closing ∧
      Decided code (code.jumpBackward byte) (OpensAt code.bytes byte closing (code.pc - 1)) 0
  forward_kept : (code.jumpForward byte).2 = { code with pc := (code.jumpForward byte).2.pc }
  backward_kept : (code.jumpBackward byte).2 = { code with pc := (code.jumpBackward byte).2.pc }

/-- Wherever the program counter stands inside the code, balance decides where a jump ends. -/
theorem jumps_exact {code : Code} (inside : code.pc ≤ code.size) (byte : UInt8) :
    JumpsExact code byte := by
  have popped (positive : code.pc ≠ 0) : ∃ last, code.bytes[code.pc - 1]? = some last := by
    have within : code.pc - 1 < code.bytes.size := by
      unfold size at inside
      omega
    exact ⟨code.bytes[code.pc - 1], Array.getElem?_eq_getElem within⟩
  refine ⟨fun edge => if_pos edge, ?_, fun early => if_pos early, ?_, code.jumpForward_kept byte,
    code.jumpBackward_kept byte⟩
  · intro positive _
    obtain ⟨opening, here⟩ := popped positive
    exact ⟨opening, here, jumpForward_decided here positive⟩
  · intro inner
    obtain ⟨closing, here⟩ := popped (by omega)
    exact ⟨closing, here, jumpBackward_decided here inner⟩

/-- Nested rows of moves, with the program counter behind the first of them. -/
def nestedMoves : Code :=
  { bytes := ("<<+<>>->.".toList.map Char.toUInt8).toArray, pc := 1 }

theorem jumps_exact_nestedMoves :
    nestedMoves.pc ≤ nestedMoves.size ∧ JumpsExact nestedMoves 0x3E :=
  ⟨by decide, jumps_exact (by decide) 0x3E⟩

example : nestedMoves.jumpForward 0x3E = (true, { nestedMoves with pc := 8 }) := by
  decide +kernel

/--
Both jumps undo each other: behind an opening byte, the one to the right ends
behind a closing byte exactly if, from there, the one to the left ends where the
first began.
-/
theorem jumpForward_iff_jumpBackward (code : Code) (opening closing : UInt8) (before behind : Nat) :
    (code.bytes[before - 1]? = some opening ∧
        ({ code with pc := before } : Code).jumpForward closing =
          (true, { code with pc := behind })) ↔
      (code.bytes[behind - 1]? = some closing ∧
        ({ code with pc := behind } : Code).jumpBackward opening =
          (true, { code with pc := before })) := by
  constructor
  · rintro ⟨popped, jumps⟩
    have positive : before ≠ 0 := by
      rintro rfl
      cases congrArg Prod.fst jumps
    obtain ⟨last, rfl, closes⟩ :=
      (jumpForward_eq_true_iff { code with pc := before } popped positive).mp jumps
    obtain ⟨first, rfl⟩ := Nat.exists_eq_succ_of_ne_zero positive
    have opens := (closesAt_iff_opensAt popped closes.closes).mp closes
    exact ⟨closes.closes, (jumpBackward_eq_true_iff
      { code with pc := last + 1 } closes.closes).mpr ⟨first, rfl, opens⟩⟩
  · rintro ⟨popped, jumps⟩
    obtain ⟨first, rfl, opens⟩ :=
      (jumpBackward_eq_true_iff { code with pc := behind } popped).mp jumps
    have positive : behind ≠ 0 := by
      rintro rfl
      cases congrArg Prod.fst jumps
    obtain ⟨last, rfl⟩ := Nat.exists_eq_succ_of_ne_zero positive
    have closes := (closesAt_iff_opensAt opens.opens popped).mpr opens
    exact ⟨opens.opens, (jumpForward_eq_true_iff { code with pc := first + 1 }
      opens.opens (Nat.succ_ne_zero first)).mpr ⟨last, rfl, closes⟩⟩

end Jumps

end Code

end TapeNet
