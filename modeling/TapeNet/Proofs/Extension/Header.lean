import TapeNet.Proofs.Code.Guarded

/-!
# The language of headers

A header enables the networking extension exactly if its source begins with
`tl:net` and goes on behind it.  A name that is read so far decides nothing by
itself: what matters is whether this name, together with the bytes that follow,
begins with the name of the extension and is longer than it.
-/

namespace TapeNet

namespace Extensions

/-- The name by which a header calls the networking extension. -/
def netName : List UInt8 := nameBytes ['n', 'e', 't']

/-- What the sources with the networking extension begin with, `tl:net`. -/
def netOpening : List UInt8 := ['t', 'l', ':', 'n', 'e', 't'].map Char.toUInt8

theorem netOpening_eq : netOpening = header ++ netName :=
  rfl

theorem named?_netName : named? netName = some net :=
  rfl

theorem named?_eq_none {name : List UInt8} (other : name ≠ netName) : named? name = none := by
  have different : (nameBytes ['n', 'e', 't'] == name) = false :=
    beq_eq_false_iff_ne.mpr other.symm
  rw [named?, supported, List.find?_singleton, different]
  rfl

theorem isNameByte_iff {byte : UInt8} : isNameByte byte = true ↔ byte ∈ netName := by
  rw [isNameByte, supported, List.any_cons, List.any_nil, Bool.or_false, List.contains_iff_mem]
  rfl

/-- A name of full length that begins the bytes can only be the one that they begin with. -/
theorem netName_isPrefix_iff {name : List UInt8} (full : name.length = longestName)
    (bytes : List UInt8) : netName <+: name ++ bytes ↔ name = netName := by
  constructor
  · intro beginning
    have inner : netName <+: name :=
      List.prefix_of_prefix_length_le beginning (List.prefix_append name bytes)
        (Nat.le_of_eq full.symm)
    exact (inner.eq_of_length full.symm).symm
  · rintro rfl
    exact List.prefix_append netName bytes

/-- A byte that goes on with a part of the name is one of the name's. -/
theorem mem_netName_of_isPrefix {name rest : List UInt8} {byte : UInt8}
    (short : name.length < longestName) (beginning : netName <+: name ++ byte :: rest) :
    byte ∈ netName := by
  obtain ⟨back, split⟩ := beginning
  have inside : name.length < netName.length := short
  have here := congrArg (fun bytes => bytes[name.length]?) split
  simp only [List.getElem?_append_right (Nat.le_refl name.length), Nat.sub_self,
    List.getElem?_cons_zero, List.getElem?_append_left inside] at here
  exact List.mem_of_getElem? here

/-- What is enabled stays enabled, whatever names follow. -/
theorem readNames_net (bytes name : List UInt8) : readNames bytes name net = net := by
  induction bytes generalizing name with
  | nil => rfl
  | cons byte rest ih =>
      by_cases called : name = netName
      · subst called
        unfold readNames
        simp only [named?_netName, union_net (.inr rfl), ih, ite_self]
      · unfold readNames
        simp only [named?_eq_none called, ih, ite_self]

/-- A name that ends enables the extension exactly if it is the one of the extension. -/
theorem readNames_cons_of_ends {name : List UInt8} {byte : UInt8}
    (ends : byte = separator ∨ name.length = longestName) (rest : List UInt8) :
    readNames (byte :: rest) name empty = net ↔ name = netName := by
  unfold readNames
  by_cases called : name = netName
  · refine iff_of_true ?_ called
    rw [called, named?_netName]
    split
    · exact readNames_net rest []
    · rfl
  · refine iff_of_false ?_ called
    rw [named?_eq_none called]
    have nothing : empty ≠ net := by decide
    by_cases separates : byte = separator
    · rw [if_pos separates]
      exact nothing
    · rw [if_neg separates, if_pos (ends.resolve_left separates)]
      exact nothing

/--
Names that enable nothing so far enable the extension exactly if the current
name and the bytes behind it begin with its name and are longer.
-/
theorem readNames_eq_net_iff {bytes name : List UInt8} (short : name.length ≤ longestName) :
    readNames bytes name empty = net ↔
      netName <+: name ++ bytes ∧ longestName < (name ++ bytes).length := by
  induction bytes generalizing name with
  | nil =>
      rw [List.append_nil]
      exact iff_of_false (by decide : empty ≠ net) fun both => Nat.not_lt_of_le short both.2
  | cons byte rest ih =>
      by_cases ends : byte = separator ∨ name.length = longestName
      · rw [readNames_cons_of_ends ends]
        constructor
        · rintro rfl
          refine ⟨List.prefix_append netName _, ?_⟩
          rw [List.length_append, List.length_cons]
          exact Nat.lt_add_of_pos_right (Nat.succ_pos _)
        · rintro ⟨beginning, _⟩
          rcases Nat.lt_or_eq_of_le short with less | full
          · have inside := mem_netName_of_isPrefix less beginning
            rw [ends.resolve_right (Nat.ne_of_lt less)] at inside
            exact absurd inside (by decide : separator ∉ netName)
          · exact (netName_isPrefix_iff full _).mp beginning
      · obtain ⟨inner, unfilled⟩ := not_or.mp ends
        have less := Nat.lt_of_le_of_ne short unfilled
        unfold readNames
        rw [if_neg inner, if_neg unfilled]
        by_cases continues : isNameByte byte = true
        · have grown : (name ++ [byte]).length ≤ longestName := by
            rw [List.length_append]
            exact less
          rw [if_pos continues, List.append_cons name byte rest]
          exact ih grown
        · rw [if_neg continues]
          refine iff_of_false (by decide : empty ≠ net) fun both => ?_
          exact continues (isNameByte_iff.mpr (mem_netName_of_isPrefix less both.1))

/-- A source has the extension exactly if it begins with `tl:net` and goes on behind it. -/
theorem detect_eq_net_iff {source : List UInt8} :
    detect source = net ↔ netOpening <+: source ∧ netOpening.length < source.length := by
  unfold detect
  by_cases long : header.length + longestName < source.length
  · rw [if_neg (Nat.not_le_of_lt long)]
    by_cases opens : header <+: source
    · obtain ⟨names, rfl⟩ := opens
      rw [if_pos (List.isPrefixOf_iff_prefix.mpr (List.prefix_append header names)),
        List.drop_left, readNames_eq_net_iff (Nat.zero_le _), List.nil_append, netOpening_eq,
        List.prefix_append_right_inj]
      refine and_congr_right fun _ => ?_
      rw [List.length_append, List.length_append]
      exact (Nat.add_lt_add_iff_left).symm
    · rw [if_neg (fun found => opens (List.isPrefixOf_iff_prefix.mp found))]
      refine iff_of_false (by decide : empty ≠ net) fun both => opens ?_
      exact (List.prefix_append header netName).trans both.1
  · rw [if_pos (Nat.le_of_not_lt long)]
    exact iff_of_false (by decide : empty ≠ net) fun both => long both.2

/--
A source of at least seven bytes whose first six are `tl:net` enables the
networking extension, and any other source enables nothing.  Whatever follows
the first seven bytes makes no difference.
-/
theorem detect_exact (source : List UInt8) :
    detect source = (if 7 ≤ source.length ∧ source.take 6 = netOpening then net else empty) ∧
      detect (source.take 7) = detect source := by
  have begins {bytes : List UInt8} :
      detect bytes = net ↔ 7 ≤ bytes.length ∧ bytes.take 6 = netOpening := by
    rw [detect_eq_net_iff, and_comm, List.prefix_iff_eq_take, eq_comm (b := bytes.take _)]
    rfl
  have decided (bytes : List UInt8) :
      detect bytes = if 7 ≤ bytes.length ∧ bytes.take 6 = netOpening then net else empty := by
    split
    · next enough => exact begins.mpr enough
    · next lacks => exact (detect_eq bytes).resolve_right fun found => lacks (begins.mp found)
  refine ⟨decided source, ?_⟩
  have front : (source.take 7).take 6 = source.take 6 := by
    rw [List.take_take]
    rfl
  have enough : 7 ≤ (source.take 7).length ↔ 7 ≤ source.length := by
    rw [List.length_take, Nat.le_min]
    exact and_iff_right (Nat.le_refl 7)
  simp only [decided, front, enough]

/-- Six bytes are not enough, and the seventh may be any byte. -/
example (byte : UInt8) : detect netOpening = empty ∧ detect (netOpening ++ [byte]) = net :=
  ⟨rfl, detect_eq_net_iff.mpr ⟨List.prefix_append netOpening [byte], Nat.lt_succ_self 6⟩⟩

end Extensions

end TapeNet
