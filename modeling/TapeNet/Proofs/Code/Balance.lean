import TapeNet.Code

/-!
# Balanced code

A segment of code is balanced in an opening and a closing byte if it holds as
many of the one as of the other, and no beginning of it holds more that close;
where one byte does both, if it does not hold that byte.  Read backwards with
the two bytes exchanged, balanced code is balanced again.
-/

namespace TapeNet

namespace Code

/-- Whether brackets are closed in a segment as they are opened, for any two bytes as brackets. -/
def Balanced (opening closing : UInt8) (segment : List UInt8) : Prop :=
  if opening = closing then
    closing ∉ segment
  else
    segment.count closing = segment.count opening ∧
      ∀ front, front <+: segment → front.count closing ≤ front.count opening

/-- The number of bytes that open a bracket; a byte that closes one does not open another. -/
def opens (opening closing : UInt8) (segment : List UInt8) : Nat :=
  if opening = closing then 0 else segment.count opening

/--
A segment that closes `depth` brackets more than it opens: this many at the end,
and nowhere more before.
-/
structure Descends (opening closing : UInt8) (depth : Nat) (segment : List UInt8) : Prop where
  total : segment.count closing = opens opening closing segment + depth
  beginnings : ∀ front, front <+: segment →
    front.count closing ≤ opens opening closing front + depth

variable {opening closing byte : UInt8} {depth : Nat} {segment front rest : List UInt8}

theorem opens_of_ne (differ : opening ≠ closing) (segment : List UInt8) :
    opens opening closing segment = segment.count opening :=
  if_neg differ

theorem opens_nil : opens opening closing [] = 0 := by
  unfold opens
  split <;> rfl

theorem opens_cons_closing : opens opening closing (closing :: rest) = opens opening closing rest := by
  unfold opens
  split
  · rfl
  · next differ => exact List.count_cons_of_ne (Ne.symm differ)

theorem opens_cons_opening (differ : opening ≠ closing) :
    opens opening closing (opening :: rest) = opens opening closing rest + 1 := by
  rw [opens_of_ne differ, opens_of_ne differ, List.count_cons_self]

theorem opens_cons_other (not_opening : byte ≠ opening) :
    opens opening closing (byte :: rest) = opens opening closing rest := by
  unfold opens
  split
  · rfl
  · exact List.count_cons_of_ne not_opening

theorem opens_append : opens opening closing (front ++ rest) =
    opens opening closing front + opens opening closing rest := by
  unfold opens
  split
  · rfl
  · exact List.count_append

/-- Balanced code is what descends from depth zero. -/
theorem descends_zero_iff : Descends opening closing 0 segment ↔ Balanced opening closing segment := by
  unfold Balanced
  split
  · next same =>
      have none_open (part : List UInt8) : opens opening closing part = 0 := if_pos same
      constructor
      · intro descends
        have total := descends.total
        rw [none_open] at total
        exact List.count_eq_zero.mp total
      · intro missing
        refine ⟨?_, ?_⟩
        · rw [none_open, List.count_eq_zero.mpr missing]
        · intro front beginning
          have absent : closing ∉ front := fun member => missing (beginning.subset member)
          rw [List.count_eq_zero.mpr absent]
          exact Nat.zero_le _
  · next differ =>
      constructor
      · intro descends
        refine ⟨?_, ?_⟩
        · rw [descends.total, opens_of_ne differ, Nat.add_zero]
        · intro front beginning
          have most := descends.beginnings front beginning
          rwa [opens_of_ne differ, Nat.add_zero] at most
      · rintro ⟨total, beginnings⟩
        refine ⟨?_, ?_⟩
        · rw [opens_of_ne differ, Nat.add_zero, total]
        · intro front beginning
          rw [opens_of_ne differ, Nat.add_zero]
          exact beginnings front beginning

/-- The beginnings of a segment are the empty one and those behind its first byte. -/
theorem forall_prefix_cons {holds : List UInt8 → Prop} :
    (∀ front, front <+: byte :: rest → holds front) ↔
      holds [] ∧ ∀ front, front <+: rest → holds (byte :: front) := by
  constructor
  · intro all
    refine ⟨all [] List.nil_prefix, ?_⟩
    intro front beginning
    exact all (byte :: front) (List.cons_prefix_cons.mpr ⟨rfl, beginning⟩)
  · rintro ⟨nothing, others⟩ front beginning
    rcases List.prefix_cons_iff.mp beginning with rfl | ⟨front, rfl, behind⟩
    · exact nothing
    · exact others front behind

theorem descends_nil_iff : Descends opening closing depth [] ↔ depth = 0 := by
  constructor
  · intro descends
    have total := descends.total
    rw [opens_nil, List.count_nil] at total
    omega
  · rintro rfl
    refine ⟨?_, ?_⟩
    · rw [opens_nil, List.count_nil]
    · intro front beginning
      rw [List.prefix_nil.mp beginning, List.count_nil]
      exact Nat.zero_le _

/-- Behind a closing byte, one bracket less has to be closed. -/
theorem descends_closing_iff :
    Descends opening closing depth (closing :: rest) ↔
      ∃ less, depth = less + 1 ∧ Descends opening closing less rest := by
  constructor
  · intro descends
    have total := descends.total
    obtain ⟨_, behind⟩ := forall_prefix_cons.mp descends.beginnings
    have first := behind [] List.nil_prefix
    simp only [List.count_cons_self, opens_cons_closing] at total first behind
    rw [List.count_nil, opens_nil] at first
    refine ⟨depth - 1, by omega, by omega, ?_⟩
    intro front beginning
    have most := behind front beginning
    omega
  · rintro ⟨less, rfl, descends⟩
    refine ⟨?_, forall_prefix_cons.mpr ⟨Nat.zero_le _, ?_⟩⟩
    · rw [List.count_cons_self, opens_cons_closing, descends.total, Nat.add_assoc]
    · intro front beginning
      rw [List.count_cons_self, opens_cons_closing]
      have most := descends.beginnings front beginning
      omega

/-- Behind an opening byte, one bracket more has to be closed. -/
theorem descends_opening_iff (differ : opening ≠ closing) :
    Descends opening closing depth (opening :: rest) ↔
      Descends opening closing (depth + 1) rest := by
  constructor
  · rintro ⟨total, beginnings⟩
    obtain ⟨_, behind⟩ := forall_prefix_cons.mp beginnings
    simp only [List.count_cons_of_ne differ, opens_cons_opening differ] at total behind
    refine ⟨by omega, ?_⟩
    intro front beginning
    have most := behind front beginning
    omega
  · rintro ⟨total, beginnings⟩
    refine ⟨?_, forall_prefix_cons.mpr ⟨Nat.zero_le _, ?_⟩⟩
    · rw [List.count_cons_of_ne differ, opens_cons_opening differ]
      omega
    · intro front beginning
      rw [List.count_cons_of_ne differ, opens_cons_opening differ]
      have most := beginnings front beginning
      omega

/-- Behind any other byte, as many brackets have to be closed as before. -/
theorem descends_other_iff (not_opening : byte ≠ opening) (not_closing : byte ≠ closing) :
    Descends opening closing depth (byte :: rest) ↔ Descends opening closing depth rest := by
  constructor
  · rintro ⟨total, beginnings⟩
    obtain ⟨_, behind⟩ := forall_prefix_cons.mp beginnings
    simp only [List.count_cons_of_ne not_closing, opens_cons_other not_opening] at total behind
    exact ⟨total, behind⟩
  · rintro ⟨total, beginnings⟩
    refine ⟨?_, forall_prefix_cons.mpr ⟨Nat.zero_le _, ?_⟩⟩
    · rwa [List.count_cons_of_ne not_closing, opens_cons_other not_opening]
    · intro front beginning
      rw [List.count_cons_of_ne not_closing, opens_cons_other not_opening]
      exact beginnings front beginning

/-- Every ending of balanced code opens at most as many brackets as it closes. -/
theorem Balanced.count_le_of_suffix {back : List UInt8} (differ : opening ≠ closing)
    (balanced : Balanced opening closing segment) (ending : back <:+ segment) :
    back.count opening ≤ back.count closing := by
  rw [Balanced, if_neg differ] at balanced
  obtain ⟨total, beginnings⟩ := balanced
  obtain ⟨front, rfl⟩ := ending
  have most := beginnings front (List.prefix_append front back)
  rw [List.count_append, List.count_append] at total
  omega

/-- Read backwards, balanced code is balanced in the two bytes exchanged. -/
theorem Balanced.reverse (balanced : Balanced opening closing segment) :
    Balanced closing opening segment.reverse := by
  by_cases same : opening = closing
  · rw [Balanced, if_pos same] at balanced
    rw [Balanced, if_pos same.symm, same, List.mem_reverse]
    exact balanced
  · have total : segment.count closing = segment.count opening := by
      rw [Balanced, if_neg same] at balanced
      exact balanced.1
    rw [Balanced, if_neg (Ne.symm same), List.count_reverse, List.count_reverse]
    refine ⟨total.symm, ?_⟩
    intro front beginning
    have ending : front.reverse <:+ segment := by
      rw [← List.reverse_prefix, List.reverse_reverse]
      exact beginning
    have most := balanced.count_le_of_suffix same ending
    rwa [List.count_reverse, List.count_reverse] at most

theorem balanced_reverse_iff :
    Balanced closing opening segment.reverse ↔ Balanced opening closing segment := by
  constructor
  · intro balanced
    have again := balanced.reverse
    rwa [List.reverse_reverse] at again
  · exact Balanced.reverse

end Code

end TapeNet
