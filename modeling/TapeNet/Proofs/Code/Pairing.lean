import TapeNet.Proofs.Block.Nesting
import TapeNet.Proofs.Code.Jump

/-!
# Pairing brackets

One pass over code from left to right, with a stack, pairs its brackets: an
opening one is pushed, a closing one takes the last one that was pushed.  It
needs no look ahead and copes with any code, balanced or not.  What it pairs is
what the two searches find, each from one end of a pair; so no bracket is paired
twice, and pairs are nested or apart.
-/

namespace TapeNet

open Opcode (loopStart loopEnd)

/-- What a pass with a stack finds out about brackets, all by their indices. -/
structure Pairing where
  /-- An opening bracket and the closing one that took it from the stack. -/
  pairs : List (Nat × Nat) := []
  /-- Closing brackets that found the stack empty. -/
  stray : List Nat := []
  /-- Opening brackets that are left on the stack. -/
  pending : List Nat := []
  deriving DecidableEq

namespace Pairing

/-- A closing bracket that finds the stack empty, before all that comes later. -/
def withStray (last : Nat) (later : Pairing) : Pairing :=
  { later with stray := last :: later.stray }

/-- A closing bracket that takes an opening one from the stack, before all that comes later. -/
def withPair (first last : Nat) (later : Pairing) : Pairing :=
  { later with pairs := (first, last) :: later.pairs }

/-- The pass from an index on, with the opening brackets on the stack, the last one first. -/
def pass : Nat → List Nat → List UInt8 → Pairing
  | _, stack, [] => { pending := stack }
  | index, stack, byte :: rest =>
    if byte = loopStart.byte then
      pass (index + 1) (index :: stack) rest
    else if byte = loopEnd.byte then
      match stack with
      | [] => (pass (index + 1) [] rest).withStray index
      | first :: stack => (pass (index + 1) stack rest).withPair first index
    else
      pass (index + 1) stack rest

/-- The brackets of code. -/
def ofBytes (bytes : Array UInt8) : Pairing :=
  pass 0 [] bytes.toList

/-- An unbalanced text: a stray bracket, two pairs in a third one, and two brackets left over. -/
example : ofBytes ("]+[[-][.]]>[[".toList.map Char.toUInt8).toArray =
    { pairs := [(3, 5), (6, 8), (2, 9)], stray := [0], pending := [12, 11] } := by
  decide

/-- The stack holds indices before the present one, the last one first. -/
def Stacked (index : Nat) (stack : List Nat) : Prop :=
  (index :: stack).Pairwise (· > ·)

namespace Stacked

variable {index first : Nat} {stack : List Nat}

theorem empty : Stacked index [] :=
  List.pairwise_singleton _ _

theorem lt (stacked : Stacked index stack) (member : first ∈ stack) : first < index :=
  List.rel_of_pairwise_cons stacked member

theorem push (stacked : Stacked index stack) : Stacked (index + 1) (index :: stack) := by
  refine List.pairwise_cons.mpr ⟨?_, stacked⟩
  intro first member
  rcases List.mem_cons.mp member with rfl | member
  · exact Nat.lt_succ_self first
  · exact Nat.lt_succ_of_lt (stacked.lt member)

theorem next (stacked : Stacked index stack) : Stacked (index + 1) stack :=
  stacked.push.sublist ((List.sublist_cons_self index stack).cons_cons (index + 1))

theorem pop (stacked : Stacked index (first :: stack)) : Stacked (index + 1) stack :=
  stacked.next.sublist ((List.sublist_cons_self first stack).cons_cons (index + 1))

/-- What is popped is not on the stack any more. -/
theorem not_mem (stacked : Stacked index (first :: stack)) : first ∉ stack := by
  intro member
  have order := List.rel_of_pairwise_cons (List.pairwise_cons.mp stacked).2 member
  exact Nat.lt_irrefl first order

end Stacked

/-- A byte stands at an index of code that begins at another index. -/
def At (index : Nat) (rest : List UInt8) (place : Nat) (byte : UInt8) : Prop :=
  ∃ count, place = index + count ∧ rest[count]? = some byte

namespace At

variable {index place : Nat} {rest : List UInt8} {byte other : UInt8}

theorem head : At index (byte :: rest) index byte :=
  ⟨0, rfl, rfl⟩

theorem tail (stands : At (index + 1) rest place byte) : At index (other :: rest) place byte := by
  obtain ⟨count, rfl, here⟩ := stands
  exact ⟨count + 1, by omega, here⟩

theorem le (stands : At index rest place byte) : index ≤ place := by
  obtain ⟨count, rfl, _⟩ := stands
  exact Nat.le_add_right index count

/-- A byte stands at the beginning or behind it. -/
theorem cases (stands : At index (other :: rest) place byte) :
    (place = index ∧ other = byte) ∨ At (index + 1) rest place byte := by
  obtain ⟨count, rfl, here⟩ := stands
  cases count with
  | zero => exact .inl ⟨rfl, Option.some.inj here⟩
  | succ count => exact .inr ⟨count, by omega, here⟩

end At

section Pass

variable {index first last : Nat} {stack : List Nat} {bytes rest : List UInt8}

/-- An opening bracket that was just pushed is where the code begins. -/
theorem mem_or_at_of_push
    (met : first ∈ index :: stack ∨ At (index + 1) rest first loopStart.byte) :
    first ∈ stack ∨ At index (loopStart.byte :: rest) first loopStart.byte := by
  rcases met with member | begins
  · rcases List.mem_cons.mp member with rfl | member
    · exact .inr .head
    · exact .inl member
  · exact .inr begins.tail

/-- The opening bracket of a pair is met in the pass, or is on the stack before. -/
theorem opening_of_mem_pairs (paired : (first, last) ∈ (pass index stack bytes).pairs) :
    first ∈ stack ∨ At index bytes first loopStart.byte := by
  fun_induction pass index stack bytes with
  | case1 => cases paired
  | case2 _ _ _ ih => exact mem_or_at_of_push (ih paired)
  | case3 _ _ _ ih => exact (ih paired).imp id At.tail
  | case4 index rest opened stack _ ih =>
      rcases List.mem_cons.mp paired with same | paired
      · cases same
        exact .inl List.mem_cons_self
      · exact (ih paired).imp (List.mem_cons_of_mem _) At.tail
  | case5 _ _ _ _ _ _ ih => exact (ih paired).imp id At.tail

/-- The closing bracket of a pair is met in the pass. -/
theorem closing_of_mem_pairs (paired : (first, last) ∈ (pass index stack bytes).pairs) :
    At index bytes last loopEnd.byte := by
  fun_induction pass index stack bytes with
  | case1 => cases paired
  | case2 _ _ _ ih => exact (ih paired).tail
  | case3 _ _ _ ih => exact (ih paired).tail
  | case4 index rest opened stack _ ih =>
      rcases List.mem_cons.mp paired with same | paired
      · cases same
        exact .head
      · exact (ih paired).tail
  | case5 _ _ _ _ _ _ ih => exact (ih paired).tail

/-- An opening bracket that is left over is met in the pass, or is on the stack before. -/
theorem opening_of_mem_pending (left : first ∈ (pass index stack bytes).pending) :
    first ∈ stack ∨ At index bytes first loopStart.byte := by
  fun_induction pass index stack bytes with
  | case1 => exact .inl left
  | case2 _ _ _ ih => exact mem_or_at_of_push (ih left)
  | case3 _ _ _ ih => exact (ih left).imp id At.tail
  | case4 _ _ _ _ _ ih => exact (ih left).imp (List.mem_cons_of_mem _) At.tail
  | case5 _ _ _ _ _ _ ih => exact (ih left).imp id At.tail

/-- A closing bracket that finds the stack empty is met in the pass. -/
theorem closing_of_mem_stray (strays : last ∈ (pass index stack bytes).stray) :
    At index bytes last loopEnd.byte := by
  fun_induction pass index stack bytes with
  | case1 => cases strays
  | case2 _ _ _ ih => exact (ih strays).tail
  | case3 index rest _ ih =>
      rcases List.mem_cons.mp strays with rfl | strays
      · exact .head
      · exact (ih strays).tail
  | case4 _ _ _ _ _ ih => exact (ih strays).tail
  | case5 _ _ _ _ _ _ ih => exact (ih strays).tail

/-- An earlier bracket that is not on the stack is not paired any more. -/
theorem not_mem_pairs (gone : first ∉ stack) (before : first < index) :
    (first, last) ∉ (pass index stack bytes).pairs := by
  intro paired
  rcases opening_of_mem_pairs paired with member | begins
  · exact gone member
  · exact Nat.not_lt_of_le begins.le before

/-- An earlier bracket that is not on the stack is not left over. -/
theorem not_mem_pending (gone : first ∉ stack) (before : first < index) :
    first ∉ (pass index stack bytes).pending := by
  intro left
  rcases opening_of_mem_pending left with member | begins
  · exact gone member
  · exact Nat.not_lt_of_le begins.le before

end Pass

/-- The index at which a search ends that begins at an index, with `depth` brackets to close before. -/
def closer? (index : Nat) (bytes : List UInt8) (depth : Nat) : Option Nat :=
  (Code.search? loopStart.byte loopEnd.byte bytes depth).map (index + ·)

section Closer

variable {index depth first last : Nat} {stack : List Nat} {byte : UInt8} {bytes rest : List UInt8}

theorem map_succ_map_add (found : Option Nat) :
    (found.map (· + 1)).map (index + ·) = found.map (index + 1 + ·) := by
  rw [Option.map_map]
  congr 1
  funext count
  simp only [Function.comp_apply]
  omega

theorem closer?_start :
    closer? index (loopStart.byte :: rest) depth = closer? (index + 1) rest (depth + 1) := by
  rw [closer?, Code.search?_opening loopStart_ne_loopEnd, map_succ_map_add, closer?]

theorem closer?_found : closer? index (loopEnd.byte :: rest) 0 = some index := by
  rw [closer?, Code.search?_found]
  rfl

theorem closer?_end :
    closer? index (loopEnd.byte :: rest) (depth + 1) = closer? (index + 1) rest depth := by
  rw [closer?, Code.search?_closing, map_succ_map_add, closer?]

theorem closer?_other (not_start : byte ≠ loopStart.byte) (not_end : byte ≠ loopEnd.byte) :
    closer? index (byte :: rest) depth = closer? (index + 1) rest depth := by
  rw [closer?, Code.search?_other not_start not_end, map_succ_map_add, closer?]

/-- What becomes of an opening bracket: it is paired with the given one, or left over if there is none. -/
structure Finds (pairing : Pairing) (first : Nat) (closer : Option Nat) : Prop where
  paired_iff : ∀ last, (first, last) ∈ pairing.pairs ↔ closer = some last
  pending_iff : first ∈ pairing.pending ↔ closer = none

/-- Another pair makes no difference. -/
theorem Finds.with_other {pairing : Pairing} {closer : Option Nat} (finds : Finds pairing first closer)
    {other : Nat} (different : first ≠ other) (place : Nat) :
    Finds (pairing.withPair other place) first closer := by
  refine ⟨?_, finds.pending_iff⟩
  intro last
  rw [← finds.paired_iff, withPair, List.mem_cons, Prod.mk.injEq]
  exact or_iff_right fun same => different same.1

/--
What is on the stack is paired with the bracket at which a search ends: as many
have to be closed before as lie above it.
-/
theorem finds_of_stacked (stacked : Stacked index stack) (here : stack[depth]? = some first) :
    Finds (pass index stack bytes) first (closer? index bytes depth) := by
  fun_induction pass index stack bytes generalizing depth with
  | case1 index stack =>
      have member : first ∈ stack := List.mem_of_getElem? here
      exact ⟨fun last => iff_of_false List.not_mem_nil (Option.some_ne_none last).symm,
        iff_of_true member rfl⟩
  | case2 index stack rest ih =>
      rw [closer?_start]
      exact ih stacked.push here
  | case3 => cases here
  | case4 index rest opened stack _ ih =>
      -- A closing bracket takes the top of the stack: what is looked for, or what lies above it.
      cases depth with
      | zero =>
          obtain rfl : opened = first := Option.some.inj here
          have before : opened < index + 1 := Nat.lt_succ_of_lt (stacked.lt List.mem_cons_self)
          rw [closer?_found]
          refine ⟨?_, iff_of_false (not_mem_pending stacked.not_mem before) (Option.some_ne_none _)⟩
          intro last
          have unseen : (opened, last) ∉ (pass (index + 1) stack rest).pairs :=
            not_mem_pairs stacked.not_mem before
          rw [withPair, List.mem_cons, or_iff_left unseen, Prod.mk.injEq, Option.some.injEq]
          exact ⟨fun same => same.2.symm, fun same => ⟨rfl, same.symm⟩⟩
      | succ depth =>
          have member : first ∈ stack := List.mem_of_getElem? here
          have different : first ≠ opened := fun same => stacked.not_mem (same ▸ member)
          rw [closer?_end]
          exact (ih stacked.pop here).with_other different index
  | case5 index stack byte rest not_start not_end ih =>
      rw [closer?_other not_start not_end]
      exact ih stacked.next here

/-- What the pass meets is paired with the bracket at which the search behind it ends. -/
theorem finds_of_at (stacked : Stacked index stack) {count : Nat}
    (here : bytes[count]? = some loopStart.byte) :
    Finds (pass index stack bytes) (index + count)
      (closer? (index + count + 1) (bytes.drop (count + 1)) 0) := by
  fun_induction pass index stack bytes generalizing count with
  | case1 => cases here
  | case2 index stack rest ih =>
      cases count with
      | zero => exact finds_of_stacked stacked.push rfl
      | succ count =>
          have later := ih stacked.push here
          rwa [Nat.add_right_comm] at later
  | case3 index rest _ ih =>
      cases count with
      | zero => cases here
      | succ count =>
          have later := ih stacked.next here
          rw [Nat.add_right_comm] at later
          exact ⟨later.paired_iff, later.pending_iff⟩
  | case4 index rest opened stack _ ih =>
      cases count with
      | zero => cases here
      | succ count =>
          have later := ih stacked.pop here
          rw [Nat.add_right_comm] at later
          have before := stacked.lt List.mem_cons_self
          exact later.with_other (by omega) index
  | case5 index stack byte rest not_start not_end ih =>
      cases count with
      | zero => exact absurd (Option.some.inj here) not_start
      | succ count =>
          have later := ih stacked.next here
          rwa [Nat.add_right_comm] at later

/-- A closing bracket finds the stack empty exactly if it is not paired. -/
theorem mem_stray_iff {count : Nat} (here : bytes[count]? = some loopEnd.byte) :
    index + count ∈ (pass index stack bytes).stray ↔
      ∀ first, (first, index + count) ∉ (pass index stack bytes).pairs := by
  fun_induction pass index stack bytes generalizing count with
  | case1 => cases here
  | case2 index stack rest ih =>
      cases count with
      | zero => cases here
      | succ count =>
          rw [Nat.add_comm count, ← Nat.add_assoc]
          exact ih here
  | case3 index rest _ ih =>
      cases count with
      | zero =>
          refine iff_of_true List.mem_cons_self ?_
          intro first paired
          exact Nat.not_succ_le_self index (closing_of_mem_pairs paired).le
      | succ count =>
          rw [withStray, Nat.add_comm count, ← Nat.add_assoc, List.mem_cons,
            or_iff_right (by omega)]
          exact ih here
  | case4 index rest opened stack _ ih =>
      cases count with
      | zero =>
          refine iff_of_false ?_ (fun unpaired => unpaired opened List.mem_cons_self)
          intro strays
          exact Nat.not_succ_le_self index (closing_of_mem_stray strays).le
      | succ count =>
          rw [Nat.add_comm count, ← Nat.add_assoc]
          refine (ih here).trans (forall_congr' fun first => not_congr ?_)
          rw [withPair, List.mem_cons, or_iff_right]
          intro same
          have places := congrArg Prod.snd same
          omega
  | case5 index stack byte rest not_start not_end ih =>
      cases count with
      | zero => exact absurd (Option.some.inj here) not_end
      | succ count =>
          rw [Nat.add_comm count, ← Nat.add_assoc]
          exact ih here

end Closer

section Brackets

variable {bytes : Array UInt8} {index first last : Nat}

theorem closer?_eq_some_iff :
    closer? index (bytes.toList.drop index) 0 = some last ↔
      Code.ClosesAt bytes loopStart.byte loopEnd.byte index last := by
  rw [closer?, Option.map_eq_some_iff]
  constructor
  · rintro ⟨count, ends, rfl⟩
    exact Code.search?_eq_some_iff_closesAt.mp ends
  · intro closes
    have place : index + (last - index) = last := Nat.add_sub_cancel' closes.ahead
    refine ⟨last - index, Code.search?_eq_some_iff_closesAt.mpr ?_, place⟩
    rw [place]
    exact closes

theorem finds_ofBytes (here : bytes[first]? = some loopStart.byte) :
    Finds (ofBytes bytes) first (closer? (first + 1) (bytes.toList.drop (first + 1)) 0) := by
  rw [← Array.getElem?_toList] at here
  have bare : Stacked 0 [] := .empty
  have finds := finds_of_at bare here
  rwa [Nat.zero_add] at finds

theorem getElem?_of_at {place : Nat} {byte : UInt8} (stands : At 0 bytes.toList place byte) :
    bytes[place]? = some byte := by
  obtain ⟨count, rfl, here⟩ := stands
  rwa [Nat.zero_add, ← Array.getElem?_toList]

/-- The pass pairs an opening bracket with the one that closes it. -/
theorem mem_pairs_iff :
    (first, last) ∈ (ofBytes bytes).pairs ↔
      bytes[first]? = some loopStart.byte ∧
        Code.ClosesAt bytes loopStart.byte loopEnd.byte (first + 1) last := by
  constructor
  · intro paired
    have begins := (opening_of_mem_pairs paired).resolve_left List.not_mem_nil
    have here := getElem?_of_at begins
    exact ⟨here, closer?_eq_some_iff.mp (((finds_ofBytes here).paired_iff last).mp paired)⟩
  · rintro ⟨here, closes⟩
    exact ((finds_ofBytes here).paired_iff last).mpr (closer?_eq_some_iff.mpr closes)

/-- An opening bracket is left over if none closes it. -/
theorem mem_pending_iff :
    first ∈ (ofBytes bytes).pending ↔
      bytes[first]? = some loopStart.byte ∧ ∀ last, (first, last) ∉ (ofBytes bytes).pairs := by
  have unpaired_iff (here : bytes[first]? = some loopStart.byte) :
      first ∈ (ofBytes bytes).pending ↔ ∀ last, (first, last) ∉ (ofBytes bytes).pairs := by
    have finds := finds_ofBytes here
    rw [finds.pending_iff, Option.eq_none_iff_forall_ne_some]
    exact forall_congr' fun last => not_congr (finds.paired_iff last).symm
  constructor
  · intro left
    have begins := (opening_of_mem_pending left).resolve_left List.not_mem_nil
    have here := getElem?_of_at begins
    exact ⟨here, (unpaired_iff here).mp left⟩
  · rintro ⟨here, unpaired⟩
    exact (unpaired_iff here).mpr unpaired

/-- A closing bracket finds the stack empty if it closes none. -/
theorem mem_stray_ofBytes_iff :
    last ∈ (ofBytes bytes).stray ↔
      bytes[last]? = some loopEnd.byte ∧ ∀ first, (first, last) ∉ (ofBytes bytes).pairs := by
  have unpaired_iff (here : bytes[last]? = some loopEnd.byte) :
      last ∈ (ofBytes bytes).stray ↔ ∀ first, (first, last) ∉ (ofBytes bytes).pairs := by
    rw [← Array.getElem?_toList] at here
    have strays_iff : 0 + last ∈ (pass 0 [] bytes.toList).stray ↔
        ∀ first, (first, 0 + last) ∉ (pass 0 [] bytes.toList).pairs := mem_stray_iff here
    rwa [Nat.zero_add] at strays_iff
  constructor
  · intro strays
    have here := getElem?_of_at (closing_of_mem_stray strays)
    exact ⟨here, (unpaired_iff here).mp strays⟩
  · rintro ⟨here, unpaired⟩
    exact (unpaired_iff here).mpr unpaired

/-- A closing bracket is paired with the one that it closes. -/
theorem mem_pairs_iff_opensAt (here : bytes[last]? = some loopEnd.byte) :
    (first, last) ∈ (ofBytes bytes).pairs ↔
      Code.OpensAt bytes loopStart.byte loopEnd.byte last first := by
  rw [mem_pairs_iff]
  constructor
  · rintro ⟨opens, closes⟩
    exact (Code.closesAt_iff_opensAt opens here).mp closes
  · intro opens
    exact ⟨opens.opens, (Code.closesAt_iff_opensAt opens.opens here).mpr opens⟩

/-- What makes a pairing of brackets one. -/
structure Sound (pairing : Pairing) (bytes : Array UInt8) : Prop where
  /-- An opening bracket is left over, or there is one bracket that it is paired with. -/
  opening : ∀ first, bytes[first]? = some loopStart.byte →
    (first ∈ pairing.pending ∧ ∀ last, (first, last) ∉ pairing.pairs) ∨
      (first ∉ pairing.pending ∧ ∃ last, (first, last) ∈ pairing.pairs)
  /-- A closing bracket is stray, or there is one bracket that it is paired with. -/
  closing : ∀ last, bytes[last]? = some loopEnd.byte →
    (last ∈ pairing.stray ∧ ∀ first, (first, last) ∉ pairing.pairs) ∨
      (last ∉ pairing.stray ∧ ∃ first, (first, last) ∈ pairing.pairs)
  first_unique : ∀ first other last, (first, last) ∈ pairing.pairs →
    (other, last) ∈ pairing.pairs → first = other
  last_unique : ∀ first last other, (first, last) ∈ pairing.pairs →
    (first, other) ∈ pairing.pairs → last = other
  /-- Pairs do not cross: one that begins inside another one ends inside it. -/
  nested : ∀ first last inner inner_last, (first, last) ∈ pairing.pairs →
    (inner, inner_last) ∈ pairing.pairs → first < inner → inner < last → inner_last < last

theorem ofBytes_sound (bytes : Array UInt8) : (ofBytes bytes).Sound bytes where
  opening first here := by
    by_cases paired : ∃ last, (first, last) ∈ (ofBytes bytes).pairs
    · obtain ⟨last, member⟩ := paired
      exact .inr ⟨fun left => (mem_pending_iff.mp left).2 last member, last, member⟩
    · have unpaired := not_exists.mp paired
      exact .inl ⟨mem_pending_iff.mpr ⟨here, unpaired⟩, unpaired⟩
  closing last here := by
    by_cases paired : ∃ first, (first, last) ∈ (ofBytes bytes).pairs
    · obtain ⟨first, member⟩ := paired
      exact .inr ⟨fun strays => (mem_stray_ofBytes_iff.mp strays).2 first member, first, member⟩
    · have unpaired := not_exists.mp paired
      exact .inl ⟨mem_stray_ofBytes_iff.mpr ⟨here, unpaired⟩, unpaired⟩
  first_unique first other last paired paired' := by
    have here := (mem_pairs_iff.mp paired).2.closes
    have inside := Nat.le_of_lt (Array.getElem?_eq_some_iff.mp here).1
    have opens := (mem_pairs_iff_opensAt here).mp paired
    exact opens.unique inside ((mem_pairs_iff_opensAt here).mp paired')
  last_unique first last other paired paired' :=
    (mem_pairs_iff.mp paired).2.unique (mem_pairs_iff.mp paired').2
  nested first last inner inner_last paired paired' after before := by
    obtain ⟨_, outer⟩ := mem_pairs_iff.mp paired
    obtain ⟨opens, closes⟩ := mem_pairs_iff.mp paired'
    exact outer.inner_lt loopStart_ne_loopEnd opens closes after before

end Brackets

end Pairing

end TapeNet
