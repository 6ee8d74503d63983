import TapeNet.Opcode

/-!
# Tables by opcode

A table holds one value for every opcode, in the order of declaration.  Two
laws say what is read after a value was put: the new one at its opcode, the
old ones elsewhere.
-/

namespace TapeNet

namespace Opcode

/-- Different opcodes have different places in the order of declaration. -/
theorem index_inj {first second : Opcode} : first.index = second.index ↔ first = second := by
  constructor
  · cases first <;> cases second <;> simp [index]
  · intro same
    rw [same]

/-- One value for every opcode, in the order of declaration. -/
structure Table (α : Type) where
  values : Vector α 13
  deriving DecidableEq

namespace Table

variable {α : Type}

def fill (value : α) : Table α :=
  ⟨Vector.replicate 13 value⟩

def get (table : Table α) (op : Opcode) : α :=
  table.values[op.index.val]

def put (table : Table α) (op : Opcode) (value : α) : Table α :=
  ⟨table.values.set op.index.val value⟩

@[simp] theorem get_fill (value : α) (op : Opcode) : (fill value).get op = value := by
  simp [fill, get]

@[simp] theorem get_put_self (table : Table α) (op : Opcode) (value : α) :
    (table.put op value).get op = value := by
  simp [put, get]

theorem get_put_of_ne (table : Table α) {op other : Opcode} (value : α) (different : op ≠ other) :
    (table.put op value).get other = table.get other := by
  have places : op.index.val ≠ other.index.val := fun same =>
    different (index_inj.mp (Fin.ext same))
  simp [put, get, places]

/-- Applies `f` to the values of each opcode in two tables. -/
def zipWith {β γ : Type} (f : α → β → γ) (first : Table α) (second : Table β) : Table γ :=
  ⟨Vector.zipWith f first.values second.values⟩

@[simp] theorem get_zipWith {β γ : Type} (f : α → β → γ) (first : Table α) (second : Table β)
    (op : Opcode) : (zipWith f first second).get op = f (first.get op) (second.get op) := by
  simp [zipWith, get]

def map {β : Type} (f : α → β) (table : Table α) : Table β :=
  ⟨table.values.map f⟩

@[simp] theorem get_map {β : Type} (f : α → β) (table : Table α) (op : Opcode) :
    (table.map f).get op = f (table.get op) := by
  simp [map, get]

def all (test : α → Bool) (table : Table α) : Bool :=
  Opcode.all.all fun op => test (table.get op)

theorem all_eq_true_iff (test : α → Bool) (table : Table α) :
    table.all test = true ↔ ∀ op, test (table.get op) = true := by
  constructor
  · intro passes op
    exact List.all_eq_true.mp passes op (by cases op <;> decide)
  · intro passes
    exact List.all_eq_true.mpr fun op _ => passes op

end Table

end Opcode

end TapeNet
