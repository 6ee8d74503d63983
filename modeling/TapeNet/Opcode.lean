import TapeNet.Extension

/-!
# Opcodes

Every instruction is a single byte.  Eight opcodes are always available, the
other five only where the networking extension is enabled.  Bytes that are no
opcode under the enabled extensions are comments.
-/

namespace TapeNet

inductive Opcode where
  | moveRight
  | moveLeft
  | increment
  | decrement
  | output
  | input
  | loopStart
  | loopEnd
  | setTimeout
  | setPort
  | receive
  | queueSend
  | flush
  deriving DecidableEq, Repr, Inhabited

namespace Opcode

def all : List Opcode :=
  [moveRight, moveLeft, increment, decrement, output, input, loopStart, loopEnd,
    setTimeout, setPort, receive, queueSend, flush]

def char : Opcode → Char
  | moveRight => '>'
  | moveLeft => '<'
  | increment => '+'
  | decrement => '-'
  | output => '.'
  | input => ','
  | loopStart => '['
  | loopEnd => ']'
  | setTimeout => '*'
  | setPort => '@'
  | receive => '?'
  | queueSend => '^'
  | flush => ';'

def byte (op : Opcode) : UInt8 :=
  op.char.toUInt8

/-- The extensions that must be enabled for an opcode to be one. -/
def needs : Opcode → Extensions
  | setTimeout | setPort | receive | queueSend | flush => .net
  | _ => .empty

/-- Whether neighbouring repetitions of the opcode may be executed as one step. -/
def isFoldable : Opcode → Bool
  | moveRight | moveLeft | increment | decrement => true
  | _ => false

/-- The short name that reports use. -/
def mnemonic : Opcode → String
  | moveRight => "right"
  | moveLeft => "left"
  | increment => "incr"
  | decrement => "decr"
  | output => "output"
  | input => "input"
  | loopStart => "loop"
  | loopEnd => "endloop"
  | setTimeout => "timeout"
  | setPort => "port"
  | receive => "recv"
  | queueSend => "queue"
  | flush => "flush"

/-- The full name that JSON texts use. -/
def name : Opcode → String
  | moveRight => "MoveRight"
  | moveLeft => "MoveLeft"
  | increment => "Increment"
  | decrement => "Decrement"
  | output => "Output"
  | input => "Input"
  | loopStart => "LoopStart"
  | loopEnd => "LoopEnd"
  | setTimeout => "SetTimeout"
  | setPort => "SetPort"
  | receive => "Receive"
  | queueSend => "QueueSend"
  | flush => "Flush"

def named? (text : String) : Option Opcode :=
  all.find? fun op => op.name == text

def index : Opcode → Fin 13
  | moveRight => 0
  | moveLeft => 1
  | increment => 2
  | decrement => 3
  | output => 4
  | input => 5
  | loopStart => 6
  | loopEnd => 7
  | setTimeout => 8
  | setPort => 9
  | receive => 10
  | queueSend => 11
  | flush => 12

/-- Opcodes are compared by their bytes, not by the order of declaration. -/
instance : Ord Opcode := ⟨fun first second => compare first.byte second.byte⟩

/-- The opcode that a byte stands for when every extension is enabled. -/
def ofByte? (byte : UInt8) : Option Opcode :=
  if byte = 0x3E then some moveRight
  else if byte = 0x3C then some moveLeft
  else if byte = 0x2B then some increment
  else if byte = 0x2D then some decrement
  else if byte = 0x2E then some output
  else if byte = 0x2C then some input
  else if byte = 0x5B then some loopStart
  else if byte = 0x5D then some loopEnd
  else if byte = 0x2A then some setTimeout
  else if byte = 0x40 then some setPort
  else if byte = 0x3F then some receive
  else if byte = 0x5E then some queueSend
  else if byte = 0x3B then some flush
  else none

/-- Reading a byte as an opcode undoes writing the opcode as a byte. -/
theorem ofByte?_byte (op : Opcode) : ofByte? op.byte = some op := by
  cases op <;> decide

/-- A choice that gives a value either is the first one or is made later. -/
theorem eq_of_choice {test : Prop} [Decidable test] {op found : Opcode} {later : Option Opcode}
    (chosen : (if test then some op else later) = some found) :
    test ∧ op = found ∨ later = some found := by
  split at chosen
  · exact .inl ⟨by assumption, Option.some.inj chosen⟩
  · exact .inr chosen

/-- Only the byte of an opcode is read as that opcode. -/
theorem ofByte?_eq_some_iff {byte : UInt8} {op : Opcode} :
    ofByte? byte = some op ↔ byte = op.byte := by
  constructor
  · intro found
    unfold ofByte? at found
    iterate 13
      rcases eq_of_choice found with ⟨same, rfl⟩ | found
      · exact same
    cases found
  · intro same
    rw [same, ofByte?_byte]

theorem byte_injective {first second : Opcode} (same : first.byte = second.byte) :
    first = second := by
  have read := ofByte?_byte first
  rw [same, ofByte?_byte] at read
  exact (Option.some.inj read).symm

/-- The opcode that a byte stands for under the enabled extensions. -/
def decode? (byte : UInt8) (enabled : Extensions) : Option Opcode :=
  (ofByte? byte).filter fun op => enabled.contains op.needs

theorem decode?_eq_some_iff {byte : UInt8} {enabled : Extensions} {op : Opcode} :
    decode? byte enabled = some op ↔ byte = op.byte ∧ enabled.contains op.needs = true := by
  rw [decode?, Option.filter_eq_some_iff, ofByte?_eq_some_iff]

/-- Whether a byte is an instruction under the enabled extensions. -/
def isValid (enabled : Extensions) (byte : UInt8) : Bool :=
  (decode? byte enabled).isSome

/-- The opcodes that may be used under the enabled extensions. -/
def alphabet (enabled : Extensions) : List Opcode :=
  all.filter fun op => enabled.contains op.needs

end Opcode

end TapeNet
