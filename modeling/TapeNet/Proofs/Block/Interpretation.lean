import TapeNet.Loopback.Transport
import TapeNet.Proofs.Block.Realization

/-!
# Well nested programs

A program with well nested brackets has a block, and a machine that does not
fold runs it as the block is evaluated: it finishes if the evaluation ends at
a cost below the budget, it stops for another reason if the evaluation is
aborted for that reason at a cost within the budget, and otherwise the budget
is spent.
-/

namespace TapeNet

/-- A program consists of instructions under its own extensions. -/
theorem Code.isValid_of_mem_parse {text : List UInt8} {byte : UInt8}
    (mem : byte ∈ (Code.parse text).bytes.toList) :
    Opcode.isValid (Code.parse text).extensions byte = true := by
  rw [Code.parse, List.toList_toArray] at mem
  exact (List.mem_filter.mp mem).2

theorem Opcode.decode?_of_isValid {enabled : Extensions} {op : Opcode}
    (valid : isValid enabled op.byte = true) : decode? op.byte enabled = some op := by
  obtain ⟨found, decoded⟩ := Option.isSome_iff_exists.mp valid
  rw [decoded, byte_injective (decode?_eq_some_iff.mp decoded).1]

theorem Opcode.exists_of_isValid {enabled : Extensions} {byte : UInt8}
    (valid : isValid enabled byte = true) : ∃ op : Opcode, byte = op.byte := by
  obtain ⟨op, decoded⟩ := Option.isSome_iff_exists.mp valid
  exact ⟨op, (decode?_eq_some_iff.mp decoded).1⟩

namespace Machine

variable {σ : Type} {transport : Transport σ}

theorem Realizes.block {code : Code} {start : Nat} {block : Block}
    (stands : Stands code.bytes start block.bytes)
    (decoded : ∀ op : Opcode, op.byte ∈ block.bytes →
      Opcode.decode? op.byte code.extensions = some op) :
    Realizes transport code start (start + block.size) (block.Evaluates transport) := by
  induction block generalizing start with
  | done => exact .done
  | leaf op straight rest ih =>
      have here := decoded op List.mem_cons_self
      have others : ∀ op' : Opcode, op'.byte ∈ rest.bytes →
          Opcode.decode? op'.byte code.extensions = some op' :=
        fun op' mem => decoded op' (List.mem_cons_of_mem _ mem)
      rw [Block.size_leaf, ← Nat.add_assoc]
      exact .sequence (.leaf straight stands.head here) (ih stands.tail others)
  | loop body rest body_ih rest_ih =>
      have opens := decoded .loopStart List.mem_cons_self
      have closes := decoded .loopEnd
        (List.mem_cons_of_mem _ (List.mem_append_right _ List.mem_cons_self))
      have inner : ∀ op : Opcode, op.byte ∈ body.bytes →
          Opcode.decode? op.byte code.extensions = some op :=
        fun op mem => decoded op (List.mem_cons_of_mem _ (List.mem_append_left _ mem))
      have others : ∀ op : Opcode, op.byte ∈ rest.bytes →
          Opcode.decode? op.byte code.extensions = some op := fun op mem =>
        decoded op
          (List.mem_cons_of_mem _ (List.mem_append_right _ (List.mem_cons_of_mem _ mem)))
      have behind : Stands code.bytes (start + body.size + 2) rest.bytes := by
        have after := stands.tail.right.tail
        rw [show start + 1 + body.bytes.length + 1 = start + body.size + 2 by
          rw [Block.size]; omega] at after
        exact after
      have place : start + (Block.loop body rest).size = start + body.size + 2 + rest.size := by
        rw [Block.size_loop]
        omega
      rw [place]
      exact .sequence (.loop stands opens closes (body_ih stands.tail.left inner))
        (rest_ih behind others)

/-- A program whose instructions are the code of a block realizes that block. -/
theorem Realizes.program {text : List UInt8} {block : Block}
    (written : block.bytes = (Code.parse text).bytes.toList) :
    Realizes transport (Code.parse text) 0 (Code.parse text).bytes.size
      (block.Evaluates transport) := by
  have stands : Stands (Code.parse text).bytes 0 block.bytes := by
    refine ⟨[], ?_⟩
    rw [List.append_nil, List.drop_zero, written]
  have size : 0 + block.size = (Code.parse text).bytes.size := by
    rw [Nat.zero_add, Block.size, written, Array.length_toList]
  rw [← size]
  refine .block stands fun op mem => ?_
  rw [written] at mem
  exact Opcode.decode?_of_isValid (Code.isValid_of_mem_parse mem)

theorem Plain.facing_start {code : Code} (starts : code.pc = 0) {m : Machine σ}
    (plain : Plain code m) : m.facing 0 = m := by
  rw [facing, plain.code_eq, ← starts, ← plain.code_eq]

/-- Where a block goes on to its end, the machine finishes after as many steps as this costs. -/
theorem Realizes.finishes {code : Code} {Meaning : Machine σ → Ending σ → Prop}
    (whole : Realizes transport code 0 code.bytes.size Meaning) (starts : code.pc = 0)
    {m last : Machine σ} (plain : Plain code m) {cost : Nat}
    (meaning : Meaning m ⟨last, none, cost⟩) :
    Proceeds transport cost m (last.facing code.bytes.size) ∧
      (last.facing code.bytes.size).step transport =
        (last.facing code.bytes.size, some .finished) := by
  obtain ⟨kept, reaches⟩ := whole.sound m _ plain meaning
  rw [plain.facing_start starts] at reaches
  cases reaches with
  | done steps =>
      refine ⟨steps, step_of_end transport ?_⟩
      change last.code.bytes[code.bytes.size]? = none
      rw [show last.code = code from kept.code_eq]
      exact Array.getElem?_size

/-- A machine goes on for ever if what it realizes has no ending. -/
theorem Realizes.endless {code : Code} {Meaning : Machine σ → Ending σ → Prop} {finish : Nat}
    (whole : Realizes transport code 0 finish Meaning) (starts : code.pc = 0) {m : Machine σ}
    (plain : Plain code m) (never : ∀ ending, ¬ Meaning m ending) (count : Nat) :
    ∃ last, Proceeds transport count m last := by
  rcases whole.complete m count plain with ⟨ending, meaning, _⟩ | goes
  · exact absurd meaning (never ending)
  · rw [plain.facing_start starts] at goes
    exact goes

/-- The result of a run, apart from where the program counter ends. -/
def outcome (transport : Transport σ) (budget : Nat) (m : Machine σ) : Machine σ × Stop :=
  ((m.run transport budget).1.facing 0, (m.run transport budget).2)

theorem Realizes.outcome_of_meaning {code : Code} {Meaning : Machine σ → Ending σ → Prop}
    (whole : Realizes transport code 0 code.bytes.size Meaning) (starts : code.pc = 0)
    {m : Machine σ} (plain : Plain code m) {ending : Ending σ} (meaning : Meaning m ending)
    {budget : Nat} (within : ending.Within budget) :
    m.outcome transport budget = (ending.machine, ending.reason) ∧
      ending.stop ≠ some .finished ∧ ending.stop ≠ some .budgetSpent := by
  obtain ⟨kept, reaches⟩ := whole.sound m ending plain meaning
  rw [plain.facing_start starts] at reaches
  cases reaches with
  | done steps =>
      obtain ⟨_, ended⟩ := whole.finishes starts plain meaning
      refine ⟨?_, (Option.some_ne_none _).symm, (Option.some_ne_none _).symm⟩
      rw [outcome, steps.run_stops ended within]
      exact congrArg (fun last => (last, Stop.finished)) (kept.facing_start starts)
  | @aborted before last stop cost index steps stops failed =>
      refine ⟨?_, fun same => failed.1 (Option.some.inj same),
        fun same => failed.2 (Option.some.inj same)⟩
      rw [outcome, steps.run_stops stops within]
      exact congrArg (fun last => (last, stop)) (kept.facing_start starts)

theorem Realizes.outcome_of_spent {code : Code} {Meaning : Machine σ → Ending σ → Prop}
    {finish : Nat} (whole : Realizes transport code 0 finish Meaning) (starts : code.pc = 0)
    {m : Machine σ} (plain : Plain code m) (budget : Nat) :
    (∃ ending, Meaning m ending ∧ ending.Within budget) ∨
      (m.outcome transport budget).2 = .budgetSpent := by
  have here := plain.facing_start starts
  rcases whole.complete m budget plain with ⟨⟨last, stop, cost⟩, meaning, le⟩ | ⟨last, steps⟩
  · cases stop with
    | some stop => exact .inl ⟨_, meaning, le⟩
    | none =>
        rcases Nat.lt_or_eq_of_le le with less | rfl
        · exact .inl ⟨_, meaning, less⟩
        · obtain ⟨_, reaches⟩ := whole.sound m _ plain meaning
          rw [here] at reaches
          cases reaches with
          | done steps => exact .inr (by rw [outcome, run_eq_budgetSpent_iff.mpr steps])
  · rw [here] at steps
    exact .inr (by rw [outcome, run_eq_budgetSpent_iff.mpr steps])

/-- A run with a budget gives what the evaluation of a block gives at a cost that the budget allows. -/
structure RunsAs (transport : Transport σ) (block : Block) (m : Machine σ) (budget : Nat) :
    Prop where
  /-- The run finishes where the evaluation ends at a cost below the budget. -/
  finished_iff : ∀ last, m.outcome transport budget = (last, .finished) ↔
    ∃ cost < budget, block.Evaluates transport m ⟨last, none, cost⟩
  /-- The run fails where the evaluation is aborted, the leaf that fails included in the cost. -/
  stopped_iff : ∀ last stop, stop ≠ .finished → stop ≠ .budgetSpent →
    (m.outcome transport budget = (last, stop) ↔
      ∃ cost ≤ budget, block.Evaluates transport m ⟨last, some stop, cost⟩)
  /-- The budget is spent where the evaluation does neither. -/
  spent_iff : (m.outcome transport budget).2 = .budgetSpent ↔
    (∀ last cost, block.Evaluates transport m ⟨last, none, cost⟩ → budget ≤ cost) ∧
      ∀ last stop cost, block.Evaluates transport m ⟨last, some stop, cost⟩ → budget < cost

theorem Realizes.runsAs {code : Code} {block : Block}
    (whole : Realizes transport code 0 code.bytes.size (block.Evaluates transport))
    (starts : code.pc = 0) {m : Machine σ} (plain : Plain code m) (budget : Nat) :
    RunsAs transport block m budget where
  finished_iff := by
    intro last
    constructor
    · intro finished
      rcases whole.outcome_of_spent starts plain budget with
        ⟨⟨_, stop, cost⟩, meaning, within⟩ | spent
      · obtain ⟨reached, failed, _⟩ := whole.outcome_of_meaning starts plain meaning within
        rw [finished] at reached
        obtain ⟨rfl, reason⟩ := Prod.mk.inj reached
        cases stop with
        | none => exact ⟨cost, within, meaning⟩
        | some stop => exact absurd (congrArg some reason.symm) failed
      · rw [finished] at spent
        cases spent
    · rintro ⟨cost, within, meaning⟩
      exact (whole.outcome_of_meaning starts plain meaning within).1
  stopped_iff := by
    intro last stop unfinished unspent
    constructor
    · intro stopped
      rcases whole.outcome_of_spent starts plain budget with
        ⟨⟨_, stop', cost⟩, meaning, within⟩ | spent
      · have reached := (whole.outcome_of_meaning starts plain meaning within).1
        rw [stopped] at reached
        obtain ⟨rfl, reason⟩ := Prod.mk.inj reached
        cases stop' with
        | none => exact absurd reason unfinished
        | some stop' =>
            cases reason
            exact ⟨cost, within, meaning⟩
      · rw [stopped] at spent
        exact absurd spent unspent
    · rintro ⟨cost, within, meaning⟩
      exact (whole.outcome_of_meaning starts plain meaning within).1
  spent_iff := by
    constructor
    · intro spent
      refine ⟨?_, ?_⟩
      · intro last cost meaning
        apply Nat.le_of_not_lt
        intro within
        rw [(whole.outcome_of_meaning starts plain meaning within).1] at spent
        cases spent
      · intro last stop cost meaning
        apply Nat.lt_of_not_le
        intro within
        obtain ⟨reached, _, failed⟩ := whole.outcome_of_meaning starts plain meaning within
        rw [reached] at spent
        exact failed (congrArg some spent)
    · rintro ⟨none_ends, none_aborts⟩
      rcases whole.outcome_of_spent starts plain budget with
        ⟨⟨last, stop, cost⟩, meaning, within⟩ | spent
      · cases stop with
        | none => exact absurd within (Nat.not_lt_of_le (none_ends last cost meaning))
        | some stop => exact absurd within (Nat.not_le_of_lt (none_aborts last stop cost meaning))
      · exact spent

/-- A well nested program is the code of one block, and runs as this block is evaluated. -/
theorem run_wellNested {text : List UInt8} (nested : WellNested (Code.parse text).bytes.toList)
    {m : Machine σ} (loaded : m.code = Code.parse text) (off : m.options.fold = false)
    (inside : m.tape.WellFormed) :
    ∃ block : Block, block.bytes = (Code.parse text).bytes.toList ∧
      (∀ other : Block, other.bytes = (Code.parse text).bytes.toList → other = block) ∧
      ∀ budget, RunsAs transport block m budget := by
  obtain ⟨block, whole, unique⟩ := nested.existsUnique_block
    fun byte mem => Opcode.exists_of_isValid (Code.isValid_of_mem_parse mem)
  refine ⟨block, whole, unique, ?_⟩
  intro budget
  exact (Realizes.program whole).runsAs rfl ⟨loaded, off, inside⟩ budget

/-- A program with a loop within a loop, an empty loop, and a leaf that may fail. -/
def nestedText : List UInt8 :=
  (['+', '[', '-', '[', ']', '<', ']', ','] : List Char).map Char.toUInt8

theorem run_wellNested_nestedText :
    WellNested (Code.parse nestedText).bytes.toList ∧
      (start (Code.parse nestedText) {} ({} : Loopback)).tape.WellFormed ∧
      ∃ block : Block, block.bytes = (Code.parse nestedText).bytes.toList ∧
        (∀ other : Block, other.bytes = (Code.parse nestedText).bytes.toList → other = block) ∧
        ∀ budget, RunsAs Loopback.transport block
          (start (Code.parse nestedText) {} ({} : Loopback)) budget := by
  have nested : WellNested (Code.parse nestedText).bytes.toList := by decide +kernel
  exact ⟨nested, Tape.blank_wellFormed,
    run_wellNested nested rfl rfl Tape.blank_wellFormed⟩

end Machine

end TapeNet
