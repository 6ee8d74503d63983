import TapeNet.Proofs.Block.Interpretation
import TapeNet.Proofs.Machine.Ending

/-!
# One program after another

The evaluation of a block neither reads nor changes the code of a machine, so it
is the same wherever the code of the block stands.  A program whose code is that
of two others in a row, both well nested, therefore comes to the same end as the
first of them followed, if it finishes, by the second one in its place.  With
folding, a row of instructions across the seam may be one step in the one and two
in the other; nothing else tells them apart.
-/

namespace TapeNet

theorem Stands.of_toList {bytes : Array UInt8} {segment : List UInt8}
    (whole : segment = bytes.toList) : Stands bytes 0 segment := by
  subst whole
  exact List.prefix_rfl

variable {σ : Type}

/-- The machine with another program. -/
def Machine.given (m : Machine σ) (code : Code) : Machine σ :=
  { m with code }

/-- The ending with another program. -/
def Ending.given (ending : Ending σ) (code : Code) : Ending σ :=
  { ending with machine := ending.machine.given code }

namespace Evaluation

/-- A meaning that neither reads nor changes the program. -/
def Codeless (Meaning : Machine σ → Ending σ → Prop) : Prop :=
  ∀ m ending code, Meaning m ending → Meaning (m.given code) (ending.given code)

namespace Codeless

variable {transport : Transport σ} {First Second Body : Machine σ → Ending σ → Prop}

theorem done : Codeless fun (m : Machine σ) ending => ending = ⟨m, none, 0⟩ := by
  rintro m _ code rfl
  rfl

theorem leaf {op : Opcode} (straight : op.isBracket = false) : Codeless (Leaf transport op) := by
  rintro m _ code rfl
  have same := Machine.perform_code transport m code straight 1
  simp only [Leaf, Machine.given, same]
  rfl

theorem sequence (first : Codeless First) (second : Codeless Second) :
    Codeless (Sequence First Second) := by
  intro m ending code meaning
  cases meaning with
  | aborted one => exact .aborted (first _ _ code one)
  | both one two => exact .both (first _ _ code one) (second _ _ code two)

theorem rounds (body : Codeless Body) : Codeless (Rounds Body) := by
  intro m ending code meaning
  induction meaning with
  | aborted one => exact .aborted (body _ _ code one)
  | last one zero => exact .last (body _ _ code one) zero
  | again one other _ ih => exact .again (body _ _ code one) other ih

theorem loop (body : Codeless Body) : Codeless (Loop Body) := by
  intro m ending code meaning
  cases meaning with
  | skipped zero => exact .skipped zero
  | entered other repeated => exact .entered other (body.rounds _ _ code repeated)

/-- The evaluation of a block does not depend on the program that it is a part of. -/
theorem block (block : Block) : Codeless (block.Evaluates transport) := by
  induction block with
  | done => exact .done
  | leaf op straight rest ih => exact (Codeless.leaf straight).sequence ih
  | loop body rest body_ih rest_ih => exact body_ih.loop.sequence rest_ih

end Codeless

end Evaluation

namespace Machine

open Evaluation

variable {transport : Transport σ}

namespace Realizes

variable {code : Code} {Meaning : Machine σ → Ending σ → Prop} {m last : Machine σ} {stop : Stop}

/-- Where a machine ends, its meaning says so. -/
theorem exists_of_ends (whole : Realizes transport code 0 code.bytes.size Meaning)
    (starts : code.pc = 0) (plain : Plain code m) (ends : Ends transport m last stop) :
    ∃ ending, Meaning m ending ∧ ending.machine = last.facing 0 ∧ ending.reason = stop ∧
      ending.stop ≠ some .finished := by
  obtain ⟨unspent, budget, ended⟩ := ends
  have outcome : m.outcome transport budget = (last.facing 0, stop) := by
    rw [Machine.outcome, ended]
  rcases whole.outcome_of_spent starts plain budget with ⟨ending, meaning, within⟩ | spent
  · obtain ⟨reached, unfinished, _⟩ := whole.outcome_of_meaning starts plain meaning within
    rw [outcome] at reached
    obtain ⟨machine, reason⟩ := Prod.mk.inj reached
    exact ⟨ending, meaning, machine.symm, reason.symm, unfinished⟩
  · rw [outcome] at spent
    exact absurd spent unspent

/-- Where a meaning gives an ending, the machine ends with it. -/
theorem exists_ends (whole : Realizes transport code 0 code.bytes.size Meaning)
    (starts : code.pc = 0) (plain : Plain code m) {ending : Ending σ} (meaning : Meaning m ending) :
    ∃ last, Ends transport m last ending.reason ∧ last.facing 0 = ending.machine ∧
      ending.stop ≠ some .finished := by
  have within : ending.Within (ending.cost + 1) := by
    unfold Ending.Within
    split
    · exact Nat.lt_succ_self _
    · exact Nat.le_succ _
  obtain ⟨reached, unfinished, unspent⟩ := whole.outcome_of_meaning starts plain meaning within
  obtain ⟨machine, reason⟩ := Prod.mk.inj reached
  refine ⟨_, ⟨?_, ending.cost + 1, Prod.ext rfl reason⟩, machine, unfinished⟩
  cases stops : ending.stop with
  | none =>
      rw [Ending.reason, stops]
      simp
  | some stop =>
      rw [Ending.reason, stops]
      exact fun same => unspent (stops.trans (congrArg some same))

/-- A block of a program has its meaning wherever it stands. -/
theorem of_stands {text : List UInt8} {block : Block} {index : Nat}
    (stands : Stands (Code.parse text).bytes index block.bytes) :
    Realizes transport (Code.parse text) index (index + block.size)
      (block.Evaluates transport) := by
  refine .block stands fun op member => ?_
  have inside := List.mem_of_mem_drop (stands.subset member)
  exact Opcode.decode?_of_isValid (Code.isValid_of_mem_parse inside)

/-- A program that is the code of a block has the meaning of the block. -/
theorem of_bytes {text : List UInt8} {block : Block}
    (bytes : block.bytes = (Code.parse text).bytes.toList) :
    Realizes transport (Code.parse text) 0 (Code.parse text).bytes.size
      (block.Evaluates transport) := by
  have realized : Realizes transport (Code.parse text) 0 (0 + block.size)
      (block.Evaluates transport) := .of_stands (.of_toList bytes)
  rwa [Nat.zero_add, Block.size, bytes, Array.length_toList] at realized

end Realizes

/-- One program until it ends, and, if it finishes, another one that is read in its place. -/
inductive EndsInTurn (transport : Transport σ) (text : Source) (m : Machine σ) :
    Machine σ → Stop → Prop where
  | first {last : Machine σ} {stop : Stop} (ends : Ends transport m last stop)
      (fails : stop ≠ .finished) : EndsInTurn transport text m last stop
  | second {middle loaded last : Machine σ} {stop : Stop}
      (finishes : Ends transport m middle .finished)
      (loads : middle.reload text = (loaded, none)) (ends : Ends transport loaded last stop) :
      EndsInTurn transport text m last stop

/-- A text that can be read replaces the program. -/
theorem reload_of_readAll {text : Source} {bytes : List UInt8} (reads : text.readAll = .ok bytes)
    (m : Machine σ) : m.reload text = (m.given (.parse bytes), none) := by
  rw [reload, reads]
  rfl

/-- Machines that only the program and its counter tell apart. -/
theorem eq_given_of_facing {first second same : Machine σ} {code : Code}
    (left : first.facing 0 = same) (right : second.facing 0 = same.given code) :
    second = first.given second.code := by
  calc
    second = (second.facing 0).given second.code := rfl
    _ = first.given second.code := by
      rw [right, ← left]
      rfl

/-- A program whose meaning is that of two others, one after the other. -/
structure Joined (transport : Transport σ) (whole first second : Code)
    (First Second : Machine σ → Ending σ → Prop) : Prop where
  starts : whole.pc = 0 ∧ first.pc = 0 ∧ second.pc = 0
  realizes : Realizes transport whole 0 whole.bytes.size (Sequence First Second)
  realizes_first : Realizes transport first 0 first.bytes.size First
  realizes_second : Realizes transport second 0 second.bytes.size Second
  codeless_first : Codeless First
  codeless_second : Codeless Second

namespace Joined

variable {whole first : Code} {bytes : List UInt8} {First Second : Machine σ → Ending σ → Prop}
  {m last : Machine σ} {stop : Stop} {text : Source}

/-- Where the whole program ends, so do its parts in turn. -/
theorem exists_endsInTurn (joined : Joined transport whole first (.parse bytes) First Second)
    (reads : text.readAll = .ok bytes) (off : m.options.fold = false) (inside : m.tape.WellFormed)
    (ends : Ends transport (m.given whole) last stop) :
    ∃ last', EndsInTurn transport text (m.given first) last' stop := by
  obtain ⟨start, start₁, start₂⟩ := joined.starts
  have plain : Plain whole (m.given whole) := ⟨rfl, off, inside⟩
  have plain₁ : Plain first (m.given first) := ⟨rfl, off, inside⟩
  obtain ⟨ending, meaning, _, rfl, _⟩ := joined.realizes.exists_of_ends start plain ends
  cases meaning with
  | aborted one =>
      have one' := joined.codeless_first (m.given whole) _ first one
      obtain ⟨last', ends', _, unfinished⟩ :=
        joined.realizes_first.exists_ends start₁ plain₁ one'
      exact ⟨last', .first ends' fun same => unfinished (congrArg some same)⟩
  | @both middle _ _ _ _ one two =>
      have one' := joined.codeless_first (m.given whole) _ first one
      have two' := joined.codeless_second middle _ (.parse bytes) two
      obtain ⟨middle', finishes, behind, _⟩ :=
        joined.realizes_first.exists_ends start₁ plain₁ one'
      have plain₂ : Plain (.parse bytes) (middle.given (.parse bytes)) := by
        have kept := (joined.realizes_first.sound _ _ plain₁ one').1
        exact ⟨rfl, kept.off, kept.inside⟩
      obtain ⟨last', ends', _, _⟩ := joined.realizes_second.exists_ends start₂ plain₂ two'
      have loaded : middle'.given (.parse bytes) = middle.given (.parse bytes) := by
        change (middle'.facing 0).given (.parse bytes) = _
        rw [behind]
        rfl
      rw [← loaded] at ends'
      exact ⟨last', .second finishes (reload_of_readAll reads middle') ends'⟩

/-- Where the parts end in turn, so does the whole program, and only the program differs. -/
theorem exists_ends (joined : Joined transport whole first (.parse bytes) First Second)
    (reads : text.readAll = .ok bytes) (off : m.options.fold = false) (inside : m.tape.WellFormed)
    (ends : EndsInTurn transport text (m.given first) last stop) :
    ∃ last', Ends transport (m.given whole) last' stop ∧ last = last'.given last.code := by
  obtain ⟨start, start₁, start₂⟩ := joined.starts
  have plain : Plain whole (m.given whole) := ⟨rfl, off, inside⟩
  have plain₁ : Plain first (m.given first) := ⟨rfl, off, inside⟩
  cases ends with
  | first ends fails =>
      obtain ⟨⟨machine, failed, cost⟩, one, behind, rfl, _⟩ :=
        joined.realizes_first.exists_of_ends start₁ plain₁ ends
      cases failed with
      | none => exact absurd rfl fails
      | some failed =>
          have one' := joined.codeless_first (m.given first) _ whole one
          obtain ⟨last', ends', behind', _⟩ :=
            joined.realizes.exists_ends start plain (.aborted one')
          exact ⟨last', ends', eq_given_of_facing behind' behind.symm⟩
  | @second middle _ _ _ finishes loads ends =>
      rw [reload_of_readAll reads] at loads
      cases loads
      obtain ⟨⟨machine, failed, cost⟩, one, seam, goes, unfinished⟩ :=
        joined.realizes_first.exists_of_ends start₁ plain₁ finishes
      cases failed with
      | some failed => exact absurd (congrArg some goes) unfinished
      | none =>
          have kept : middle.options.fold = false := by
            rw [finishes.options]
            exact off
          have plain₂ : Plain (.parse bytes) (middle.given (.parse bytes)) :=
            ⟨rfl, kept, finishes.inside inside⟩
          obtain ⟨⟨machine₂, failed, more⟩, two, behind, rfl, _⟩ :=
            joined.realizes_second.exists_of_ends start₂ plain₂ ends
          have one' := joined.codeless_first (m.given first) _ whole one
          have two' := joined.codeless_second (middle.given (.parse bytes)) _ whole two
          have between : (middle.given (.parse bytes)).given whole = machine.given whole := by
            change (middle.facing 0).given whole = _
            rw [← seam]
          rw [between] at two'
          obtain ⟨last', ends', behind', _⟩ :=
            joined.realizes.exists_ends start plain (.both one' two')
          exact ⟨last', ends', eq_given_of_facing behind' behind.symm⟩

/-- Well nested code in a row with other such code has the meaning of both, one after the other. -/
theorem of_texts {whole first second : List UInt8}
    (joined : (Code.parse whole).bytes.toList =
      (Code.parse first).bytes.toList ++ (Code.parse second).bytes.toList)
    (nested₁ : WellNested (Code.parse first).bytes.toList)
    (nested₂ : WellNested (Code.parse second).bytes.toList) :
    ∃ First Second,
      Joined transport (.parse whole) (.parse first) (.parse second) First Second := by
  obtain ⟨block₁, bytes₁, _⟩ := nested₁.existsUnique_block
    fun byte member => Opcode.exists_of_isValid (Code.isValid_of_mem_parse member)
  obtain ⟨block₂, bytes₂, _⟩ := nested₂.existsUnique_block
    fun byte member => Opcode.exists_of_isValid (Code.isValid_of_mem_parse member)
  have row : Stands (Code.parse whole).bytes 0 (block₁.bytes ++ block₂.bytes) :=
    .of_toList (by rw [joined, bytes₁, bytes₂])
  have size : 0 + block₁.size + block₂.size = (Code.parse whole).bytes.size := by
    rw [Nat.zero_add, Block.size, Block.size, ← List.length_append, bytes₁, bytes₂, ← joined,
      Array.length_toList]
  have realized : Realizes transport (Code.parse whole) 0 (0 + block₁.size + block₂.size)
      (Sequence (block₁.Evaluates transport) (block₂.Evaluates transport)) :=
    .sequence (.of_stands row.left) (.of_stands row.right)
  exact ⟨_, _, ⟨rfl, rfl, rfl⟩, size ▸ realized, .of_bytes bytes₁, .of_bytes bytes₂,
    .block block₁, .block block₂⟩

end Joined

/--
Machines that are related end two programs in turn alike if they do so with one
program, and if they stay related where they read the same program.
-/
theorem EndsInTurn.carry (Related : Machine σ → Machine σ → Prop)
    (given : ∀ {m other : Machine σ}, Related m other →
      ∀ code, Related (m.given code) (other.given code))
    (carries : ∀ {m other last : Machine σ} {stop : Stop}, Related m other →
      Ends transport m last stop →
        ∃ result, Ends transport other result stop ∧ Related last result)
    {text : Source} {bytes : List UInt8} (reads : text.readAll = .ok bytes)
    {m other last : Machine σ} {stop : Stop} (related : Related m other)
    (ends : EndsInTurn transport text m last stop) :
    ∃ result, EndsInTurn transport text other result stop ∧ Related last result := by
  cases ends with
  | first ends fails =>
      obtain ⟨result, ends', related'⟩ := carries related ends
      exact ⟨result, .first ends' fails, related'⟩
  | @second middle _ _ _ finishes loads ends =>
      rw [reload_of_readAll reads] at loads
      cases loads
      obtain ⟨middle', finishes', between⟩ := carries related finishes
      obtain ⟨result, ends', related'⟩ := carries (given between (.parse bytes)) ends
      exact ⟨result, .second finishes' (reload_of_readAll reads middle') ends', related'⟩

theorem Alike.symm {first second : Machine σ} (alike : Alike first second) : Alike second first :=
  ⟨alike.code.symm, alike.tape.symm, alike.network.symm, alike.world.symm, alike.source.symm,
    alike.sink.symm, alike.addresses.symm, alike.counts.symm⟩

theorem Alike.trans {first second third : Machine σ} (before : Alike first second)
    (after : Alike second third) : Alike first third where
  code := before.code.trans after.code
  tape := before.tape.trans after.tape
  network := before.network.trans after.network
  world := before.world.trans after.world
  source := before.source.trans after.source
  sink := before.sink.trans after.sink
  addresses := before.addresses.trans after.addresses
  counts := before.counts.trans after.counts

theorem Alike.given {first second : Machine σ} (alike : Alike first second) (code : Code) :
    Alike (first.given code) (second.given code) :=
  { alike with code := rfl }

namespace Unfolds

variable {folded plain last : Machine σ} {stop : Stop} {text : Source} {bytes : List UInt8}

theorem given (pair : Unfolds folded plain) (code : Code) :
    Unfolds (folded.given code) (plain.given code) :=
  ⟨pair.alike.given code, pair.on, pair.off, pair.inside⟩

/-- Where a folding machine ends two programs in turn, one that does not fold does so alike. -/
theorem endsInTurn_plain (pair : Unfolds folded plain) (reads : text.readAll = .ok bytes)
    (ends : EndsInTurn transport text folded last stop) :
    ∃ result, EndsInTurn transport text plain result stop ∧ Unfolds last result :=
  ends.carry Unfolds given ends_plain reads pair

/-- Where a machine that does not fold ends two programs in turn, a folding one does so alike. -/
theorem endsInTurn_folded (pair : Unfolds folded plain) (reads : text.readAll = .ok bytes)
    (ends : EndsInTurn transport text plain last stop) :
    ∃ result, EndsInTurn transport text folded result stop ∧ Unfolds result last :=
  ends.carry (fun plain folded => Unfolds folded plain) given ends_folded reads pair

end Unfolds

/-- The machine that does not fold. -/
def unfolded (m : Machine σ) : Machine σ :=
  { m with options := { m.options with fold := false } }

/-- A folding machine beside the one that does not fold, both with a program. -/
theorem unfolds_unfolded {m : Machine σ} (on : m.options.fold = true)
    (inside : m.tape.WellFormed) (code : Code) :
    Unfolds (m.given code) (m.unfolded.given code) :=
  ⟨⟨rfl, rfl, rfl, rfl, rfl, rfl, rfl, rfl⟩, on, rfl, inside⟩

/-- A program and two others in turn come to the same ends. -/
structure Composes (transport : Transport σ) (text : Source) (whole first : Machine σ) : Prop where
  /-- The one comes to an end exactly if the others do, and for the same reason. -/
  ends_iff : ∀ stop, (∃ last, Ends transport whole last stop) ↔
    ∃ last, EndsInTurn transport text first last stop
  /-- There is one such end, with the machines alike in all but the program they have then. -/
  alike : ∀ last last' stop stop', Ends transport whole last stop →
    EndsInTurn transport text first last' stop' →
      stop = stop' ∧ Alike (last.given last'.code) last'
  /-- Without folding, there are as many steps. -/
  steps : whole.options.fold = false → ∀ last last' stop stop', Ends transport whole last stop →
    EndsInTurn transport text first last' stop' → last.report.steps = last'.report.steps

namespace Joined

variable {whole first : Code} {bytes : List UInt8} {First Second : Machine σ → Ending σ → Prop}
  {m : Machine σ} {text : Source}

/-- Machines that end two programs in turn and the whole of them, compared. -/
theorem exists_alike (joined : Joined transport whole first (.parse bytes) First Second)
    (reads : text.readAll = .ok bytes) (inside : m.tape.WellFormed) {last : Machine σ}
    {stop : Stop} (ends : EndsInTurn transport text (m.given first) last stop) :
    ∃ last', Ends transport (m.given whole) last' stop ∧ Alike (last'.given last.code) last ∧
      (m.options.fold = false → last'.report.steps = last.report.steps) := by
  cases mode : m.options.fold with
  | false =>
      obtain ⟨last', ends', same⟩ := joined.exists_ends reads mode inside ends
      refine ⟨last', ends', ?_, fun _ => ?_⟩
      · rw [← same]
        exact ⟨rfl, rfl, rfl, rfl, rfl, rfl, rfl, rfl⟩
      · exact (congrArg (fun last => last.report.steps) same).symm
  | true =>
      have off : m.unfolded.options.fold = false := rfl
      have pair := unfolds_unfolded mode inside
      obtain ⟨result, ends₁, agree₁⟩ := (pair first).endsInTurn_plain reads ends
      obtain ⟨result', ends₂, same⟩ := joined.exists_ends reads off inside ends₁
      obtain ⟨last', ends₃, agree₃⟩ := (pair whole).ends_folded ends₂
      refine ⟨last', ends₃, ?_, fun impossible => by cases impossible⟩
      have through := agree₃.alike.given result.code
      rw [← same] at through
      rw [agree₁.alike.code]
      exact through.trans agree₁.alike.symm

theorem composes (joined : Joined transport whole first (.parse bytes) First Second)
    (reads : text.readAll = .ok bytes) (inside : m.tape.WellFormed) :
    Composes transport text (m.given whole) (m.given first) where
  ends_iff := by
    intro stop
    constructor
    · rintro ⟨last, ends⟩
      cases mode : m.options.fold with
      | false => exact joined.exists_endsInTurn reads mode inside ends
      | true =>
          have off : m.unfolded.options.fold = false := rfl
          have pair := unfolds_unfolded mode inside
          obtain ⟨_, ends₁, _⟩ := (pair whole).ends_plain ends
          obtain ⟨_, ends₂⟩ := joined.exists_endsInTurn reads off inside ends₁
          obtain ⟨last', ends₃, _⟩ := (pair first).endsInTurn_folded reads ends₂
          exact ⟨last', ends₃⟩
    · rintro ⟨last, ends⟩
      obtain ⟨last', ends', _⟩ := joined.exists_alike reads inside ends
      exact ⟨last', ends'⟩
  alike := by
    intro last last' stop stop' ends ends'
    obtain ⟨found, ends'', alike, _⟩ := joined.exists_alike reads inside ends'
    obtain ⟨rfl, rfl⟩ := ends.unique ends''
    exact ⟨rfl, alike⟩
  steps := by
    intro off last last' stop stop' ends ends'
    obtain ⟨found, ends'', _, steps⟩ := joined.exists_alike reads inside ends'
    obtain ⟨rfl, rfl⟩ := ends.unique ends''
    exact steps off

end Joined

/--
A program with the code of two well nested ones in a row comes to the same ends
as the first of these followed by the second, from any state of the machine,
with folding and without, and whatever extensions the three enable.
-/
theorem run_joined {whole first second : List UInt8} {text : Source}
    (joined : (Code.parse whole).bytes.toList =
      (Code.parse first).bytes.toList ++ (Code.parse second).bytes.toList)
    (nested_first : WellNested (Code.parse first).bytes.toList)
    (nested_second : WellNested (Code.parse second).bytes.toList)
    (reads : text.readAll = .ok second) {m : Machine σ} (inside : m.tape.WellFormed) :
    Composes transport text (m.given (.parse whole)) (m.given (.parse first)) := by
  obtain ⟨First, Second, joins⟩ :
      ∃ First Second, Joined transport (.parse whole) (.parse first) (.parse second) First Second :=
    Joined.of_texts joined nested_first nested_second
  exact joins.composes reads inside

/-- A loop and a row of increments. -/
def frontText : List UInt8 :=
  ("tl:net:++[->+<]>+".toList).map Char.toUInt8

/-- The row goes on, a byte is queued, and the second of two moves leaves the tape. -/
def backText : List UInt8 :=
  ("tl:net:+^<<.".toList).map Char.toUInt8

/-- Both programs, with a comment between them. -/
def seamText : List UInt8 :=
  ("tl:net:++[->+<]>+ (more) +^<<.".toList).map Char.toUInt8

theorem run_joined_seam :
    (Code.parse seamText).bytes.toList =
        (Code.parse frontText).bytes.toList ++ (Code.parse backText).bytes.toList ∧
      WellNested (Code.parse frontText).bytes.toList ∧
      WellNested (Code.parse backText).bytes.toList ∧
      (Source.ofBytes backText).readAll = .ok backText ∧
      (start {} { fold := true } ({} : Loopback)).tape.WellFormed ∧
      Composes Loopback.transport (.ofBytes backText)
        ((start {} { fold := true } {}).given (.parse seamText))
        ((start {} { fold := true } {}).given (.parse frontText)) := by
  have joined : (Code.parse seamText).bytes.toList =
      (Code.parse frontText).bytes.toList ++ (Code.parse backText).bytes.toList := by
    decide +kernel
  have nested_front : WellNested (Code.parse frontText).bytes.toList := by decide +kernel
  have nested_back : WellNested (Code.parse backText).bytes.toList := by decide +kernel
  exact ⟨joined, nested_front, nested_back, rfl, Tape.blank_wellFormed,
    run_joined joined nested_front nested_back rfl Tape.blank_wellFormed⟩

end Machine

end TapeNet
